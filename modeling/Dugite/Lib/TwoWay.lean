import Mathlib.Data.Finset.Basic

/-!
# A choice and its index

Members choose one group or none (`target`), and each group that exists lists its members
(`members`). `TwoWay target members` says that the lists are the index of the choices: a group lists
exactly the members that choose it, and only groups that exist are chosen.

The rules below say how the two sides have to change together for that to stay true.
-/

variable {C D : Type*}

/-- Each group lists exactly the members that choose it, and every group chosen exists. -/
structure TwoWay (target : C → Option D) (members : D → Option (Finset C)) : Prop where
  mem_iff : ∀ {d s}, members d = some s → ∀ c, c ∈ s ↔ target c = some d
  isSome : ∀ {c d}, target c = some d → (members d).isSome

namespace TwoWay

open Function Option

variable [DecidableEq C] [DecidableEq D] {target : C → Option D} {members : D → Option (Finset C)}
  {d : D} {s : Finset C}

section
variable (target : C → Option D) (members : D → Option (Finset C)) (c : C)

/-- The lists after a member is taken off the list of the group it chooses. -/
def unlisted (d : D) : Option (Finset C) :=
  if target c = some d then (members d).map (·.erase c) else members d

/-- The lists after a member moves to a group, or to none. -/
def moved (choice : Option D) (d : D) : Option (Finset C) :=
  if choice = some d then (unlisted target members c d).map (insert c)
  else unlisted target members c d

end

theorem isSome_unlisted (c : C) (d : D) :
    (unlisted target members c d).isSome = (members d).isSome := by
  unfold unlisted
  split
  · exact isSome_map
  · rfl

theorem isSome_moved (c : C) (choice : Option D) (d : D) :
    (moved target members c choice d).isSome = (members d).isSome := by
  unfold moved
  split
  · rw [isSome_map, isSome_unlisted]
  · exact isSome_unlisted c d

theorem mem_unlisted (h : TwoWay target members) {c : C}
    (hs : unlisted target members c d = some s) (c' : C) :
    c' ∈ s ↔ c' ≠ c ∧ target c' = some d := by
  unfold unlisted at hs
  split at hs
  · obtain ⟨s', hs', rfl⟩ := map_eq_some_iff.1 hs
    rw [Finset.mem_erase, h.mem_iff hs']
  next hc =>
  rw [h.mem_iff hs]
  refine ⟨fun hc' => ⟨?_, hc'⟩, And.right⟩
  rintro rfl
  exact hc hc'

theorem move (h : TwoWay target members) (c : C) {choice : Option D}
    (hchoice : ∀ d, choice = some d → (members d).isSome) :
    TwoWay (update target c choice) (moved target members c choice) where
  mem_iff := by
    intro d s hs c'
    unfold moved at hs
    split at hs
    · next hd =>
      obtain ⟨s', hs', rfl⟩ := map_eq_some_iff.1 hs
      rw [Finset.mem_insert, h.mem_unlisted hs']
      by_cases hc : c' = c
      · simp [hc, hd]
      · simp [hc]
    · next hd =>
      rw [h.mem_unlisted hs]
      by_cases hc : c' = c
      · simp [hc, hd]
      · simp [hc]
  isSome := by
    intro c' d hd
    rw [isSome_moved]
    rw [update_apply] at hd
    split at hd
    · exact hchoice d hd
    · exact h.isSome hd

omit [DecidableEq C] in
/-- A new group starts with an empty list. -/
theorem register (h : TwoWay target members) (hd : members d = none) :
    TwoWay target (update members d (some ∅)) where
  mem_iff := by
    intro d' s hs c
    rw [update_apply] at hs
    split at hs
    · next heq =>
      obtain rfl := some.inj hs
      refine ⟨fun hc => absurd hc (Finset.notMem_empty c), fun hc => ?_⟩
      have hsome := h.isSome hc
      rw [heq, hd] at hsome
      cases hsome
    · exact h.mem_iff hs c
  isSome := by
    intro c d' hc
    rw [update_apply]
    split
    · rfl
    · exact h.isSome hc

/-- A group that is dissolved takes the choices of its members with it. -/
theorem dissolve (h : TwoWay target members) (hd : members d = some s) :
    TwoWay (fun c => if c ∈ s then none else target c) (update members d none) where
  mem_iff := by
    intro d' s' hs' c
    rw [update_apply] at hs'
    split at hs'
    · cases hs'
    next hne =>
    rw [h.mem_iff hs' c]
    split
    · next hc =>
      rw [(h.mem_iff hd c).1 hc]
      exact ⟨fun heq => absurd (some.inj heq).symm hne, nofun⟩
    · rfl
  isSome := by
    intro c d' hc
    split at hc
    · cases hc
    next hnot =>
    rw [update_apply, if_neg]
    · exact h.isSome hc
    · rintro rfl
      exact hnot ((h.mem_iff hd c).2 hc)

end TwoWay
