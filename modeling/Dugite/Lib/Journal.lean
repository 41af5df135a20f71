import Dugite.Lib.FinMap

/-!
# Journals: recorded edits of a map and their undoing

A journal lists the entries that were inserted into a map and, with their old values, the entries
that were deleted from it. It forgets the order of the edits. `Recorded m d m'` says what is needed
to get `m` back from `m'` and `d` all the same: every insert was at a key that `m` does not have,
every delete is of an entry of `m` or of a key inserted meanwhile, and all other keys were left
alone. Undoing re-inserts the deletes first and removes the inserts afterwards, so that an entry
which came and went is gone in the end.

`Accounts m d m'` says that the totals of `m'` are those of `m` with the inserts and without the
deletes. `Submap r m` says that every entry of `r` is an entry of `m`; undoing keeps it.
-/

structure Journal (K V : Type*) where
  inserts : List (K × V) := []
  deletes : List (K × V) := []

namespace Journal

open FinMap List

variable {K V : Type*} [DecidableEq K] {es : List (K × V)}

section
variable (d : Journal K V)

/-- The keys inserted. -/
def inserted : List K := d.inserts.map (·.1)

/-- The keys deleted. -/
def deleted : List K := d.deletes.map (·.1)

def recordInsert (k : K) (v : V) : Journal K V := { d with inserts := d.inserts ++ [(k, v)] }

def recordDelete (k : K) (v : V) : Journal K V := { d with deletes := d.deletes ++ [(k, v)] }

end

/-- Append the edits of another journal. -/
def merge (d e : Journal K V) : Journal K V := ⟨d.inserts ++ e.inserts, d.deletes ++ e.deletes⟩

/-- Insert the entries of a list, one after the other. -/
def insertAll (es : List (K × V)) (m : FinMap K V) : FinMap K V :=
  es.foldl (fun m e => m.insert e.1 e.2) m

/-- Erase the keys of a list, one after the other. -/
def eraseAll (ks : List K) (m : FinMap K V) : FinMap K V := ks.foldl (fun m k => m.erase k) m

/-- Re-insert the deletes, then remove the inserts. -/
def undo (d : Journal K V) (m : FinMap K V) : FinMap K V :=
  eraseAll d.inserted (insertAll d.deletes m)

/-! ## Lists of inserts and erases -/

theorem lookup_eraseAll (ks : List K) (m : FinMap K V) (k : K) :
    (eraseAll ks m).lookup k = if k ∈ ks then none else m.lookup k :=
  FinMap.lookup_eraseAll ks m k

/-- When the entries of a list give a key only one value, that is its value after they are
inserted, in whatever order they come. -/
theorem lookup_insertAll_of_mem {m : FinMap K V} {k : K} {v : V}
    (hk : k ∈ es.map (·.1)) (hval : ∀ e ∈ es, e.1 = k → e.2 = v) :
    (insertAll es m).lookup k = some v := by
  refine (lookup_insertAll es m k).trans ?_
  cases hlast : (es.filter (·.1 = k)).getLast? with
  | none =>
    obtain ⟨e, he, hek⟩ := mem_map.1 hk
    exact absurd (decide_eq_true hek) (filter_eq_nil_iff.1 (getLast?_eq_none_iff.1 hlast) e he)
  | some e =>
    obtain ⟨he, hek⟩ := mem_filter.1 (mem_of_getLast? hlast)
    exact congrArg some (hval e he (of_decide_eq_true hek))

/-! ## Recorded edits -/

/-- The edits from `m` to `m'` are recorded in `d` well enough to be undone. -/
structure Recorded (m : FinMap K V) (d : Journal K V) (m' : FinMap K V) : Prop where
  /-- Inserts are at keys that were free. -/
  fresh : ∀ k ∈ d.inserted, m.lookup k = none
  /-- A delete keeps the old value, unless its key is new. -/
  kept : ∀ e ∈ d.deletes, e.1 ∉ d.inserted → m.lookup e.1 = some e.2
  /-- What is not recorded did not change. -/
  frame : ∀ k, k ∉ d.inserted → m'.lookup k = m.lookup k ∨ (m'.lookup k = none ∧ k ∈ d.deleted)

namespace Recorded

variable {m m' m'' : FinMap K V} {d e : Journal K V} {k : K} {v : V}

section
variable (h : Recorded m d m')
include h

/-- Erasing a key and recording its value in the first map; a key inserted meanwhile may be
recorded with any value. -/
theorem delete_of (hk : k ∉ d.inserted → m.lookup k = some v) :
    Recorded m (d.recordDelete k v) (m'.erase k) where
  fresh := h.fresh
  kept := by
    intro e he hnew
    rcases mem_append.1 he with he | he
    · exact h.kept e he hnew
    · obtain rfl := mem_singleton.1 he
      exact hk hnew
  frame := by
    intro k' hnew
    rw [lookup_erase_ite]
    by_cases hkk : k' = k
    · subst hkk
      exact .inr ⟨if_pos rfl, by simp [deleted, recordDelete]⟩
    rw [if_neg hkk]
    rcases h.frame k' hnew with hframe | ⟨hnone, hdel⟩
    · exact .inl hframe
    · refine .inr ⟨hnone, ?_⟩
      simp only [deleted, recordDelete, map_append, mem_append]
      exact .inl hdel

/-- An entry of the current map whose key was not inserted is an entry of the first map. -/
theorem lookup_before (hk : m'.lookup k = some v) (hnew : k ∉ d.inserted) :
    m.lookup k = some v := by
  rcases h.frame k hnew with hframe | ⟨hnone, -⟩
  · exact hframe ▸ hk
  · exact absurd (hnone.symm.trans hk) (by simp)

/-- Deleting an entry of the current map and recording it. -/
theorem delete (hk : m'.lookup k = some v) : Recorded m (d.recordDelete k v) (m'.erase k) :=
  h.delete_of (h.lookup_before hk)

/-- Inserting at a key that the first map does not have, and recording it. -/
theorem insert (hk : m.lookup k = none) : Recorded m (d.recordInsert k v) (m'.insert k v) where
  fresh := by
    intro k' hk'
    rcases mem_append.1 (by simpa [inserted, recordInsert] using hk' :
      k' ∈ d.inserted ++ [k]) with hold | hnew
    · exact h.fresh k' hold
    · exact mem_singleton.1 hnew ▸ hk
  kept := by
    intro e he hnew
    exact h.kept e he fun hold => hnew (by simp [inserted, recordInsert] at hold ⊢; exact .inl hold)
  frame := by
    intro k' hnew
    have hne : k' ≠ k := by
      rintro rfl
      exact hnew (by simp [inserted, recordInsert])
    have hold : k' ∉ d.inserted := fun hold =>
      hnew (by simp [inserted, recordInsert] at hold ⊢; exact .inl hold)
    rw [lookup_insert_ite, if_neg hne]
    exact h.frame k' hold

/-- Two recorded stretches of edits make one, if the inserts of the second are new to the map
before the first. -/
theorem append (h' : Recorded m' e m'')
    (hfresh : ∀ k ∈ e.inserted, m.lookup k = none) : Recorded m (d.merge e) m'' := by
  have hins : ∀ k, k ∈ (d.merge e).inserted ↔ k ∈ d.inserted ∨ k ∈ e.inserted := by
    intro k
    simp [inserted, merge]
  have hdel : ∀ k, k ∈ (d.merge e).deleted ↔ k ∈ d.deleted ∨ k ∈ e.deleted := by
    intro k
    simp [deleted, merge]
  refine ⟨?_, ?_, ?_⟩
  · intro k hk
    rcases (hins k).1 hk with hk | hk
    · exact h.fresh k hk
    · exact hfresh k hk
  · intro x hx hnew
    rw [hins, not_or] at hnew
    rcases mem_append.1 hx with hx | hx
    · exact h.kept x hx hnew.1
    · exact h.lookup_before (h'.kept x hx hnew.2) hnew.1
  · intro k hnew
    rw [hins, not_or] at hnew
    rw [hdel]
    rcases h'.frame k hnew.2 with hframe' | ⟨hnone', hk'⟩
    · rcases h.frame k hnew.1 with hframe | ⟨hnone, hk⟩
      · exact .inl (hframe'.trans hframe)
      · exact .inr ⟨hframe'.trans hnone, .inl hk⟩
    · exact .inr ⟨hnone', .inr hk'⟩

end

/-- The journal's edits may be merged in the other order: the records are the same sets. -/
theorem merge_comm (h : Recorded m (d.merge e) m') : Recorded m (e.merge d) m' := by
  have hins : ∀ k, k ∈ (e.merge d).inserted ↔ k ∈ (d.merge e).inserted := by
    intro k
    simp [inserted, merge, or_comm]
  refine ⟨fun k hk => h.fresh k ((hins k).1 hk), ?_, ?_⟩
  · intro x hx hnew
    refine h.kept x ?_ fun hk => hnew ((hins _).2 hk)
    simpa [merge, or_comm] using hx
  · intro k hnew
    rcases h.frame k fun hk => hnew ((hins k).2 hk) with hframe | ⟨hnone, hk⟩
    · exact .inl hframe
    · exact .inr ⟨hnone, by simpa [deleted, merge, or_comm] using hk⟩

/-- What undoing a recorded journal does to any map at a key. -/
theorem lookup_undo (h : Recorded m d m') (r : FinMap K V) (k : K) :
    (d.undo r).lookup k = if k ∈ d.inserted then none
      else if k ∈ d.deleted then m.lookup k else r.lookup k := by
  rw [undo, lookup_eraseAll]
  split_ifs with hins hdel
  · rfl
  · obtain ⟨x, hx, rfl⟩ := mem_map.1 hdel
    rw [h.kept x hx hins]
    refine lookup_insertAll_of_mem hdel fun y hy hyx => ?_
    have hval := h.kept y hy (hyx ▸ hins)
    rw [hyx, h.kept x hx hins] at hval
    exact (Option.some.inj hval).symm
  · have hnone := filter_eq_nil_iff.2 fun e he h => hdel (mem_map.2 ⟨e, he, of_decide_eq_true h⟩)
    exact (lookup_insertAll _ r k).trans (by rw [hnone]; rfl)

/-- Undoing recorded edits gives back the map before them. -/
theorem undo_eq (h : Recorded m d m') : d.undo m' = m := by
  refine Finmap.ext_lookup fun k => ?_
  rw [h.lookup_undo]
  split_ifs with hins hdel
  · rw [h.fresh k hins]
  · rfl
  rcases h.frame k hins with hframe | ⟨-, hk⟩
  · exact hframe
  · exact absurd hk hdel

end Recorded

/-! ## Weights -/

/-- The sum of a weight over some entries. -/
def weightIn (f : V → Nat) (es : List (K × V)) : Nat := (es.map fun e => f e.2).sum

omit [DecidableEq K] in
@[simp] theorem weightIn_append (f : V → Nat) (es es' : List (K × V)) :
    weightIn f (es ++ es') = weightIn f es + weightIn f es' := by
  rw [weightIn, map_append, sum_append, weightIn, weightIn]

/-- The journal accounts for the change of every total: what it deletes was there, and what it
inserts is. -/
def Accounts (m : FinMap K V) (d : Journal K V) (m' : FinMap K V) : Prop :=
  ∀ f : V → Nat, m'.total f + weightIn f d.deletes = m.total f + weightIn f d.inserts

namespace Accounts

variable {m m' m'' : FinMap K V} {d e : Journal K V}

theorem nil (m : FinMap K V) : Accounts m {} m := fun _ => rfl

theorem merge (h : Accounts m d m') (h' : Accounts m' e m'') : Accounts m (d.merge e) m'' := by
  intro f
  have hfirst := h f
  have hsecond := h' f
  rw [Journal.merge, weightIn_append, weightIn_append]
  omega

/-- Entries are inserted at keys that are free and different. -/
theorem insertAll (h : Accounts m d m') (hnodup : (es.map (·.1)).Nodup)
    (hfree : ∀ x ∈ es, m'.lookup x.1 = none) :
    Accounts m ⟨d.inserts ++ es, d.deletes⟩ (m'.insertAll es) := by
  intro f
  have hbefore := h f
  have htotal := total_insertAll (f := f) es m'
  have hreplaced : m'.replaced f es = 0 :=
    replaced_eq_zero hnodup fun x hx => by rw [FinMap.weightAt, hfree x hx]; rfl
  show (m'.insertAll es).total f + weightIn f d.deletes = m.total f + weightIn f (d.inserts ++ es)
  rw [weightIn_append]
  unfold weightIn at hbefore ⊢
  omega

end Accounts

/-! ## Submaps -/

/-- Every entry of `r` is an entry of `m`. -/
def Submap (r m : FinMap K V) : Prop := ∀ k v, r.lookup k = some v → m.lookup k = some v

theorem Submap.refl (m : FinMap K V) : Submap m m := fun _ _ h => h

variable {m r m' : FinMap K V}

theorem Submap.trans (h : Submap r m) (h' : Submap m m') : Submap r m' :=
  fun k v hk => h' k v (h k v hk)

/-- Keeping some entries of a map gives a submap of it. -/
theorem submap_retain (p : K → V → Bool) (m : FinMap K V) : Submap (m.retain p) m := by
  intro k v hk
  rw [lookup_retain] at hk
  exact (Option.filter_eq_some_iff.1 hk).1

/-- Undoing on a part of the map gives a part of the map before. -/
theorem Recorded.undo_submap {d : Journal K V} (h : Recorded m d m')
    (hr : Submap r m') : Submap (d.undo r) m := by
  intro k v hk
  rw [h.lookup_undo] at hk
  split_ifs at hk with hins hdel
  · exact hk
  · exact h.lookup_before (hr k v hk) hins

/-- Two maps that are submaps of each other are equal. -/
theorem Submap.antisymm (h : Submap r m) (h' : Submap m r) : r = m := by
  refine Finmap.ext_lookup fun k => ?_
  cases hk : m.lookup k with
  | some v => exact h' k v hk
  | none =>
    cases hr : r.lookup k with
    | none => rfl
    | some v => exact absurd (hk.symm.trans (h k v hr)) (by simp)

/-! ## Chains of recorded steps -/

/-- A step: the map before it, what is left of that map when the recording starts, and the
record. -/
structure Step (K V : Type*) where
  (before base : FinMap K V)
  journal : Journal K V

/-- Steps, newest first, that lead to a map. A step may drop entries before it starts to record
its edits. -/
inductive Chain : List (Step K V) → FinMap K V → Prop
  | nil (m : FinMap K V) : Chain [] m
  | cons {steps : List (Step K V)} {s : Step K V} {m : FinMap K V} (older : Chain steps s.before)
      (dropped : Submap s.base s.before) (recorded : Recorded s.base s.journal m) :
      Chain (s :: steps) m

/-- Undo the journals of some steps, in the order given. -/
def rewind (journals : List (Journal K V)) (m : FinMap K V) : FinMap K V :=
  journals.foldl (fun m d => d.undo m) m

variable {steps : List (Step K V)} (h : Chain steps m) {s : Step K V}
include h

theorem Chain.dropped_of_mem (hs : s ∈ steps) : Submap s.base s.before := by
  induction h with
  | nil m => cases hs
  | cons older dropped recorded ih =>
    rcases mem_cons.1 hs with rfl | hs
    · exact dropped
    · exact ih hs

theorem Chain.take (n : Nat) : Chain (steps.take n) m := by
  induction h generalizing n with
  | nil m =>
    rw [take_nil]
    exact .nil m
  | cons older dropped recorded ih =>
    cases n with
    | zero => exact .nil _
    | succ n => exact .cons (ih n) dropped recorded

/-- Rewinding from a part of the last map reaches a part of each earlier base. -/
theorem Chain.rewind_submap (hr : Submap r m) {n : Nat} (hs : steps[n]? = some s) :
    Submap (rewind ((steps.take (n + 1)).map (·.journal)) r) s.base := by
  induction h generalizing n r with
  | nil m => simp at hs
  | @cons steps s' m older dropped recorded ih =>
    have hbase := recorded.undo_submap hr
    cases n with
    | zero =>
      obtain rfl : s' = s := by simpa using hs
      exact hbase
    | succ n => exact ih (hbase.trans dropped) (by simpa using hs)

/-- When no step dropped anything, rewinding reaches each earlier map. -/
theorem Chain.rewind_eq
    (hkeep : ∀ s ∈ steps, s.base = s.before) {n : Nat} (hs : steps[n]? = some s) :
    rewind ((steps.take (n + 1)).map (·.journal)) m = s.before := by
  induction h generalizing n with
  | nil m => simp at hs
  | @cons steps s' m older dropped recorded ih =>
    have hundo := recorded.undo_eq.trans (hkeep s' mem_cons_self)
    cases n with
    | zero =>
      obtain rfl : s' = s := by simpa using hs
      exact hundo
    | succ n =>
      have hrest := ih (fun t ht => hkeep t (mem_cons_of_mem _ ht)) (by simpa using hs)
      rwa [← hundo] at hrest

/-- Rewinding is exact at every depth exactly when no step dropped anything. -/
theorem Chain.rewind_eq_iff :
    (∀ n s, steps[n]? = some s → rewind ((steps.take (n + 1)).map (·.journal)) m = s.before) ↔
      ∀ s ∈ steps, s.base = s.before := by
  refine ⟨fun hexact s hs => ?_, fun hkeep n s hs => h.rewind_eq hkeep hs⟩
  obtain ⟨n, hn⟩ := mem_iff_getElem?.1 hs
  have hbelow := h.rewind_submap (Submap.refl m) hn
  rw [hexact n s hn] at hbelow
  exact (h.dropped_of_mem hs).antisymm hbelow

end Journal
