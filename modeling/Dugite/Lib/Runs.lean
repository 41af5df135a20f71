import Mathlib.Algebra.BigOperators.Group.List.Basic
import Mathlib.Algebra.Order.Ring.Int
import Mathlib.Data.List.Induction
import Mathlib.Data.List.Nodup

/-!
# Runs through a list

Three ways to read a list one element after the other.

`Runs.always_iff` is the rule for a property that some operations keep and the others break: if an
operation on a good state keeps the property exactly when it is safe there, then the property holds
in every state of a run exactly when every operation of the run is safe where it is applied.

`Prefixes.sumAlong f l` adds up what each element of `l` contributes, where the contribution may
depend on the elements before it. It is the sum that goes with a left fold: appending an element
adds the contribution of that element after all the others (`sumAlong_concat`).

`Line.Follows` says of a list that each element continues the one before it, and the first one a
given origin; `Line.latest` is where such a line ends.
-/

namespace Runs

variable {S O : Type*} {step : S → O → S}

/-- `Inv` is an invariant where `P`, the property in question, holds; `SafeRun` says that every
operation is safe where it is applied. -/
theorem always_iff {Inv P : S → Prop} {Safe : S → O → Prop} {SafeRun : S → List O → Prop}
    (hnil : ∀ s, SafeRun s [])
    (hcons : ∀ s o ops, SafeRun s (o :: ops) ↔ Safe s o ∧ SafeRun (step s o) ops)
    (hinv : ∀ s o, Inv s → P s → Inv (step s o))
    (hstep : ∀ s o, Inv s → P s → (P (step s o) ↔ Safe s o)) {s : S} (hs : Inv s) (h : P s)
    (ops : List O) :
    (∀ k, P ((ops.take k).foldl step s)) ↔ SafeRun s ops := by
  induction ops generalizing s with
  | nil =>
    refine iff_of_true (fun k => ?_) (hnil s)
    rw [List.take_nil]
    exact h
  | cons o ops ih =>
    rw [hcons, ← hstep s o hs h]
    constructor
    · intro hall
      have hnext : P (step s o) := hall 1
      exact ⟨hnext, (ih (hinv s o hs h) hnext).1 fun k => hall (k + 1)⟩
    · rintro ⟨hnext, hrun⟩ k
      cases k with
      | zero => exact h
      | succ k => exact (ih (hinv s o hs h) hnext).2 hrun k

end Runs

namespace Prefixes

open List

variable {α : Type*} (f : List α → α → Int)

/-- The sum of `f before a` over the elements `a` of a list, each with the elements before it. -/
def sumAlong (f : List α → α → Int) (l : List α) : Int :=
  (l.zipIdx.map fun e => f (l.take e.2) e.1).sum

@[simp] theorem sumAlong_nil : sumAlong f [] = 0 := rfl

theorem sumAlong_concat (l : List α) (a : α) : sumAlong f (l ++ [a]) = sumAlong f l + f l a := by
  unfold sumAlong
  rw [zipIdx_append, map_append, sum_append]
  congr 1
  · refine congrArg sum (map_congr_left fun e he => ?_)
    rw [take_append_of_le_length (Nat.le_of_lt (mem_zipIdx' he).1)]
  · simp

theorem sumAlong_sub (g : List α → α → Int) (l : List α) :
    sumAlong (fun before a => f before a - g before a) l = sumAlong f l - sumAlong g l := by
  induction l using reverseRecOn with
  | nil => rfl
  | append_singleton l a ih =>
    rw [sumAlong_concat, sumAlong_concat, sumAlong_concat, ih]
    omega

end Prefixes

namespace Line

open List

variable {α : Type*}

/-- Each element continues the one before it; the first continues `origin`. -/
def Follows (prev : α → Option α) : Option α → List α → Prop
  | _, [] => True
  | origin, a :: l => prev a = origin ∧ Follows prev (some a) l

/-- The end of a line. -/
def latest : Option α → List α → Option α
  | origin, [] => origin
  | _, a :: l => latest (some a) l

theorem latest_concat (origin : Option α) (l : List α) (a : α) :
    latest origin (l ++ [a]) = some a := by
  induction l generalizing origin with
  | nil => rfl
  | cons b l ih => exact ih (some b)

namespace Follows

variable {prev : α → Option α} {origin : Option α} {l : List α} (h : Follows prev origin l)
include h

/-- A line goes on from its end. -/
theorem concat {a : α} (ha : prev a = latest origin l) : Follows prev origin (l ++ [a]) := by
  induction l generalizing origin with
  | nil => exact ⟨ha, trivial⟩
  | cons b l ih => exact ⟨h.1, ih h.2 ha⟩

/-- What an element of a line continues. -/
theorem prev_cases {a : α} (ha : a ∈ l) : prev a = origin ∨ ∃ b ∈ l, prev a = some b := by
  induction l generalizing origin with
  | nil => cases ha
  | cons b l ih =>
    rcases mem_cons.1 ha with rfl | ha
    · exact .inl h.1
    · rcases ih h.2 ha with hprev | ⟨c, hc, hprev⟩
      · exact .inr ⟨b, mem_cons_self, hprev⟩
      · exact .inr ⟨c, mem_cons_of_mem b hc, hprev⟩

end Follows

end Line
