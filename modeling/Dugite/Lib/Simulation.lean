import Mathlib.Logic.Relation

/-!
# Machines and the relations they implement

A machine is a function that takes a state to the next state or to an outcome. It implements a
reduction relation if each state stands for a term and each step either reduces that term or leaves
it and makes a measure smaller (`Implements`). Then a run that ends has reduced the term as far as
possible (`Implements.reduces`), and if the relation is deterministic a term that can be reduced to
a normal form makes the machine end (`Implements.halts`).
-/

namespace Simulation

variable {S O T : Type*} (next : S → S ⊕ O)

/-- The outcome after at most `n` steps. -/
def run : Nat → S → Option O
  | 0, _ => none
  | n + 1, s => (next s).elim (run n) some

/-- The machine ends with this outcome. -/
def Halts (s : S) (o : O) : Prop := ∃ n, run next n s = some o

variable {next} {s s' : S} {o o' : O}

theorem halts_of_inl (h : next s = .inl s') : Halts next s o ↔ Halts next s' o := by
  constructor
  · rintro ⟨n, hn⟩
    cases n with
    | zero => cases hn
    | succ n =>
      rw [run, h, Sum.elim_inl] at hn
      exact ⟨n, hn⟩
  · rintro ⟨n, hn⟩
    refine ⟨n + 1, ?_⟩
    rw [run, h, Sum.elim_inl, hn]

/-- The machine does nothing more once it has ended. -/
theorem run_mono {n m : Nat} (h : run next n s = some o) (hle : n ≤ m) : run next m s = some o := by
  induction n generalizing s m with
  | zero => cases h
  | succ n ih =>
    obtain ⟨m, rfl⟩ := Nat.exists_eq_add_of_le' hle
    rw [← Nat.add_assoc, run] at *
    cases hs : next s with
    | inl s' =>
      rw [hs] at h
      exact ih h (Nat.le_add_left n m)
    | inr o' => rwa [hs] at h

/-- From a state that comes back the machine does not end. -/
theorem not_halts_of_lap {k : Nat} (h : ∀ n, run next (n + (k + 1)) s = run next n s) :
    ¬Halts next s o := by
  rintro ⟨n, hn⟩
  have hlaps : ∀ laps, run next (laps * (k + 1)) s = none := by
    intro laps
    induction laps with
    | zero => rw [Nat.zero_mul, run]
    | succ laps ih => rw [Nat.succ_mul, h, ih]
  cases (hlaps n).symm.trans (run_mono hn (Nat.le_mul_of_pos_right n k.succ_pos))

/-- A property of the outcome that the last state gives and each step hands back. -/
theorem Halts.induction {P : S → Prop} (h : Halts next s o) (halt : ∀ s, next s = .inr o → P s)
    (step : ∀ s s', next s = .inl s' → Halts next s' o → P s' → P s) : P s := by
  obtain ⟨n, hn⟩ := h
  induction n generalizing s with
  | zero => cases hn
  | succ n ih =>
    rw [run] at hn
    cases hs : next s with
    | inl s' =>
      rw [hs, Sum.elim_inl] at hn
      exact step s s' hs ⟨n, hn⟩ (ih hn)
    | inr o' =>
      rw [hs, Sum.elim_inr] at hn
      obtain rfl := Option.some.inj hn
      exact halt s hs

open Relation (ReflTransGen)

variable {Red : T → T → Prop} {Inv : S → Prop} {term : S → T} {measure : S → Nat}

/-- Each step reduces the term of the state or works towards the next reduction; an outcome is only
given when no reduction is left. -/
structure Implements (next : S → S ⊕ O) (Red : T → T → Prop) (Inv : S → Prop) (term : S → T)
    (measure : S → Nat) : Prop where
  kept : ∀ {s s'}, Inv s → next s = .inl s' → Inv s'
  step : ∀ {s s'}, Inv s → next s = .inl s' →
    Red (term s) (term s') ∨ term s' = term s ∧ measure s' < measure s
  normal : ∀ {s o}, Inv s → next s = .inr o → ∀ t, ¬ Red (term s) t

variable (h : Implements next Red Inv term measure)
include h

theorem Implements.reduces (hinv : Inv s) (hhalts : Halts next s o) :
    ∃ s', Inv s' ∧ next s' = .inr o ∧ ReflTransGen Red (term s) (term s') := by
  refine hhalts.induction (P := fun s => Inv s → ∃ s', Inv s' ∧ next s' = .inr o ∧
    ReflTransGen Red (term s) (term s')) ?_ ?_ hinv
  · exact fun s hs hinv => ⟨s, hinv, hs, .refl⟩
  · intro s s' hs _ ih hinv
    obtain ⟨last, hlast, hout, hred⟩ := ih (h.kept hinv hs)
    refine ⟨last, hlast, hout, ?_⟩
    rcases h.step hinv hs with hstep | ⟨heq, -⟩
    · exact .head hstep hred
    · rwa [heq] at hred

/-- The machine ends or reaches the next reduction. -/
theorem Implements.halts_or_reduces (hinv : Inv s) : (∃ o, Halts next s o) ∨
      ∃ s', Inv s' ∧ Red (term s) (term s') ∧ ∀ o, Halts next s' o → Halts next s o := by
  induction hm : measure s using Nat.strongRecOn generalizing s with
  | _ m ih =>
    cases hs : next s with
    | inr o => exact .inl ⟨o, 1, by rw [run, hs, Sum.elim_inr]⟩
    | inl s' =>
    have hkept := h.kept hinv hs
    rcases h.step hinv hs with hstep | ⟨heq, hlt⟩
    · exact .inr ⟨s', hkept, hstep, fun o => (halts_of_inl hs).2⟩
    · rcases ih _ (hm ▸ hlt) hkept rfl with ⟨o, ho⟩ | ⟨last, hlast, hred, hback⟩
      · exact .inl ⟨o, (halts_of_inl hs).2 ho⟩
      · exact .inr ⟨last, hlast, heq ▸ hred, fun o ho => (halts_of_inl hs).2 (hback o ho)⟩

theorem Implements.halts (hdet : ∀ {t t₁ t₂}, Red t t₁ → Red t t₂ → t₁ = t₂) (hinv : Inv s) {t : T}
    (hred : ReflTransGen Red (term s) t) (hnormal : ∀ t', ¬ Red t t') : ∃ o, Halts next s o := by
  generalize hu : term s = u at hred
  induction hred using ReflTransGen.head_induction_on generalizing s with
  | refl =>
    rcases h.halts_or_reduces hinv with hhalts | ⟨s', -, hstep, -⟩
    · exact hhalts
    · exact absurd (hu ▸ hstep) (hnormal _)
  | @head u u' hfirst _ ih =>
    rcases h.halts_or_reduces hinv with hhalts | ⟨s', hinv', hstep, hback⟩
    · exact hhalts
    · obtain ⟨o, ho⟩ := ih hinv' (hdet (hu ▸ hstep) hfirst)
      exact ⟨o, hback o ho⟩

end Simulation
