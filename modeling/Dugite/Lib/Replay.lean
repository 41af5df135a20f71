import Mathlib.Data.List.Basic

/-!
# Replaying from checkpoints

A state is kept as a base and the steps taken since, with checkpoints at some positions.
`Checkpointed step core base deltas cps` says that the checkpoints are right: the one at position `i`
is, as far as `core` can see, the state after the first `i + 1` steps. Replaying from any of them
then gives what replaying from the base gives (`resume`).

The other rules say what has to be done with the checkpoints when a step is taken, when the last
steps are dropped, and when the first step goes into the base.
-/

namespace Replay

open List

variable {C D S : Type*} {step : C → D → C} {core : S → C}

/-- Every checkpoint stands at a step and holds the state after it. -/
def Checkpointed (step : C → D → C) (core : S → C) (base : C) (deltas : List D)
    (cps : List (Nat × S)) : Prop :=
  ∀ e ∈ cps, e.1 < deltas.length ∧ core e.2 = (deltas.take (e.1 + 1)).foldl step base

namespace Checkpointed

variable {base : C} {deltas : List D} {cps : List (Nat × S)}

theorem nil (base : C) (deltas : List D) : Checkpointed step core base deltas [] :=
  fun _ he => nomatch he

/-- A step is taken. -/
theorem concat (h : Checkpointed step core base deltas cps) (d : D) :
    Checkpointed step core base (deltas ++ [d]) cps := by
  intro e he
  obtain ⟨hlt, hcore⟩ := h e he
  refine ⟨?_, ?_⟩
  · rw [length_append]
    omega
  · rw [take_append_of_le_length hlt, hcore]

/-- The last steps are dropped. -/
theorem truncate (h : Checkpointed step core base deltas cps) (n : Nat) :
    Checkpointed step core base (deltas.take n) (cps.filter fun e => e.1 < n) := by
  intro e he
  obtain ⟨hmem, hn⟩ := mem_filter.1 he
  obtain ⟨hlt, hcore⟩ := h e hmem
  have hn : e.1 < n := of_decide_eq_true hn
  refine ⟨?_, ?_⟩
  · rw [length_take]
    omega
  · rw [take_take, Nat.min_eq_left (Nat.succ_le_of_lt hn), hcore]

/-- The first step goes into the base: positions move down by one, and a checkpoint at the first
step goes. -/
theorem shift {d : D} (h : Checkpointed step core base (d :: deltas) cps) :
    Checkpointed step core (step base d) deltas
      (cps.filterMap fun e => if e.1 = 0 then none else some (e.1 - 1, e.2)) := by
  intro e he
  obtain ⟨⟨i, s⟩, hmem, heq⟩ := mem_filterMap.1 he
  obtain ⟨hlt, hcore⟩ := h (i, s) hmem
  split at heq
  · cases heq
  next hi =>
  obtain rfl := Option.some.inj heq
  obtain ⟨j, rfl⟩ := Nat.exists_eq_succ_of_ne_zero hi
  refine ⟨?_, ?_⟩
  · exact Nat.lt_of_succ_lt_succ hlt
  · rw [hcore, take_succ_cons, foldl_cons]
    rfl

/-- Replaying from a checkpoint. -/
theorem resume (h : Checkpointed step core base deltas cps) {i : Nat} {s : S}
    (hmem : (i, s) ∈ cps) {j : Nat} (hij : i ≤ j) :
    ((deltas.drop (i + 1)).take (j - i)).foldl step (core s) =
      (deltas.take (j + 1)).foldl step base := by
  obtain ⟨_, hcore⟩ := h (i, s) hmem
  have hsplit : deltas.take (j + 1) =
      deltas.take (i + 1) ++ (deltas.drop (i + 1)).take (j - i) := by
    rw [← take_add]
    congr 1
    omega
  rw [hsplit, foldl_append, ← hcore]

end Checkpointed

end Replay
