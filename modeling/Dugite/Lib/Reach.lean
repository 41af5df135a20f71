import Mathlib.Data.Finset.Card
import Mathlib.Data.Finset.Union

/-!
# Collecting what is below an element

`collect next fuel a out` walks depth first from `a` along `next` and adds what it meets to `out`;
what is already there is not entered again. It adds nothing but what is below `a`
(`below_of_mem_collect`).

`spread step a n` goes from `a` level by level; `spread_fixed` says when `n` levels are enough.
-/

namespace Reach

open Finset

variable {α : Type*} [DecidableEq α] (next : α → List α)

def collect : Nat → α → Finset α → Finset α
  | 0, _, out => out
  | fuel + 1, a, out => (next a).foldl (fun out b =>
      if b ∈ out then out else collect fuel b (insert b out)) out

/-- Enter an element that is not collected yet. -/
def visit (fuel : Nat) (out : Finset α) (b : α) : Finset α :=
  if b ∈ out then out else collect next fuel b (insert b out)

theorem collect_succ (fuel : Nat) (a : α) (out : Finset α) :
    collect next (fuel + 1) a out = (next a).foldl (visit next fuel) out := rfl

/-- `b` is met by following `next` from `a` at least once. -/
abbrev Below : α → α → Prop := Relation.TransGen fun a b => b ∈ next a

variable {next}

/-- What is collected stays. -/
theorem subset_collect (fuel : Nat) :
    ∀ (a : α) (out : Finset α), out ⊆ collect next fuel a out := by
  induction fuel with
  | zero => exact fun a out => Finset.Subset.refl out
  | succ fuel ih =>
    intro a out
    rw [collect_succ]
    have hvisit : ∀ (b : α) (out : Finset α), out ⊆ visit next fuel out b := by
      intro b out
      rw [visit]
      split
      · exact Finset.Subset.refl out
      · exact (subset_insert b out).trans (ih b _)
    induction next a generalizing out with
    | nil => exact Finset.Subset.refl out
    | cons b l ihl => exact (hvisit b out).trans (ihl _)

/-- Whatever is collected already, a walk adds only what is below its start. -/
theorem below_of_mem_collect (fuel : Nat) :
    ∀ {a b : α} {out : Finset α}, b ∈ collect next fuel a out → b ∈ out ∨ Below next a b := by
  induction fuel with
  | zero => exact fun h => .inl h
  | succ fuel ih =>
    intro a b out h
    have hloop : ∀ (l : List α) (out : Finset α), (∀ c ∈ l, c ∈ next a) →
        b ∈ l.foldl (visit next fuel) out → b ∈ out ∨ Below next a b := by
      intro l
      induction l with
      | nil => exact fun out _ hb => .inl hb
      | cons c l hrest =>
        intro out hl hb
        rw [List.forall_mem_cons] at hl
        rcases hrest _ hl.2 hb with hb | hb
        · rw [visit] at hb
          split at hb
          · exact .inl hb
          rcases ih hb with hb | hb
          · rcases mem_insert.1 hb with rfl | hb
            · exact .inr (.single hl.1)
            · exact .inl hb
          · exact .inr (.head hl.1 hb)
        · exact .inr hb
    exact hloop (next a) out (fun c hc => hc) h

/-! ## Level by level -/

section
variable (step : α → Finset α) (a : α)

/-- What is met from `a` in at most `n` steps. -/
def spread : Nat → Finset α
  | 0 => ∅
  | n + 1 => step a ∪ (spread n).biUnion step

variable {step a}

theorem mem_spread_succ {n : Nat} {b : α} :
    b ∈ spread step a (n + 1) ↔ b ∈ step a ∨ ∃ c ∈ spread step a n, b ∈ step c := by
  rw [spread, mem_union, mem_biUnion]

theorem spread_subset_succ (n : Nat) : spread step a n ⊆ spread step a (n + 1) := by
  induction n with
  | zero => exact empty_subset _
  | succ n ih =>
    intro b hb
    rcases mem_spread_succ.1 hb with hb | ⟨c, hc, hb⟩
    · exact mem_spread_succ.2 (.inl hb)
    · exact mem_spread_succ.2 (.inr ⟨c, ih hc, hb⟩)

/-- A level that adds nothing is the last one. -/
theorem spread_stable {n : Nat} (h : spread step a (n + 1) = spread step a n) (m : Nat) :
    spread step a (n + m) = spread step a n := by
  induction m with
  | zero => rfl
  | succ m ih => rw [← Nat.add_assoc, spread, ih, ← spread, h]

/-- As many levels as there are elements to meet are enough. -/
theorem spread_fixed {within : Finset α} (hwithin : ∀ b, step b ⊆ within) {n : Nat}
    (hn : within.card ≤ n) : spread step a (n + 1) = spread step a n := by
  have hsub : ∀ m, spread step a m ⊆ within := by
    intro m b hb
    cases m with
    | zero => cases hb
    | succ m =>
      rcases mem_spread_succ.1 hb with hb | ⟨c, -, hb⟩
      · exact hwithin a hb
      · exact hwithin c hb
  -- as long as every level adds something, the levels outgrow the bound
  have hgrow : ∀ m, (∃ k ≤ m, spread step a (k + 1) = spread step a k) ∨
      m + 1 ≤ (spread step a (m + 1)).card := by
    intro m
    induction m with
    | zero =>
      by_cases h : spread step a 1 = spread step a 0
      · exact .inl ⟨0, le_rfl, h⟩
      · exact .inr (card_pos.2 (nonempty_iff_ne_empty.2 h))
    | succ m ih =>
      rcases ih with ⟨k, hk, h⟩ | ih
      · exact .inl ⟨k, hk.trans (Nat.le_succ m), h⟩
      by_cases h : spread step a (m + 1 + 1) = spread step a (m + 1)
      · exact .inl ⟨m + 1, le_rfl, h⟩
      · have hlt := card_lt_card
          (Finset.ssubset_iff_subset_ne.2 ⟨spread_subset_succ (m + 1), Ne.symm h⟩)
        exact .inr (by omega)
  rcases hgrow n with ⟨k, hk, h⟩ | hcard
  · obtain ⟨m, rfl⟩ := Nat.exists_eq_add_of_le hk
    rw [spread_stable h m, Nat.add_assoc, spread_stable h (m + 1)]
  · have := card_le_card (hsub (n + 1))
    omega

end

end Reach
