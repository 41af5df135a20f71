import Mathlib.Control.Monad.Basic

/-!
# Chains of checks

A validator is a sequence of checks in `Except`: the first that fails decides. `rejectIf` is one
check; a chain accepts exactly when each of its checks does (`bind_unit_eq_ok`).
-/

namespace Checks

variable {ε : Type*} {α : Type} {a : α}

/-- Fail with `e` when `b` holds. -/
def rejectIf (b : Bool) (e : ε) : Except ε Unit := if b then .error e else .ok ()

@[simp] theorem rejectIf_eq_ok {b : Bool} {e : ε} : rejectIf b e = .ok () ↔ b = false := by
  cases b <;> simp [rejectIf]

@[simp] theorem bind_unit_eq_ok {x : Except ε Unit} {f : Unit → Except ε α} :
    (x >>= f) = .ok a ↔ x = .ok () ∧ f () = .ok a := by
  cases x with
  | error e | ok u => simp [bind, Except.bind]

/-- A computation after another succeeds exactly when both do. -/
theorem bind_eq_ok {β : Type} {x : Except ε β} {f : β → Except ε α} :
    (x >>= f) = .ok a ↔ ∃ b, x = .ok b ∧ f b = .ok a := by
  cases x with
  | error e | ok b => simp [bind, Except.bind]

/-- The value of an option, or the error `e` when there is none (`ok_or`). -/
def okOr (e : ε) : Option α → Except ε α
  | some a => .ok a
  | none => .error e

@[simp] theorem okOr_eq_ok {e : ε} {o : Option α} : okOr e o = .ok a ↔ o = some a := by
  cases o <;> simp [okOr]

/-- A loop that stops at the first error went through every element when it succeeds. -/
theorem exists_ok_of_mapM {β γ : Type} {f : β → Except ε γ} {l : List β} {out : List γ}
    (h : l.mapM f = .ok out) {b : β} (hb : b ∈ l) : ∃ c ∈ out, f b = .ok c := by
  induction l generalizing out with
  | nil => cases hb
  | cons b' l ih =>
    rw [List.mapM_cons] at h
    obtain ⟨c, hc, h⟩ := bind_eq_ok.1 h
    obtain ⟨rest, hrest, h⟩ := bind_eq_ok.1 h
    cases h
    obtain rfl | hmem := List.mem_cons.1 hb
    · exact ⟨c, List.mem_cons_self, hc⟩
    · obtain ⟨c', hc', hfc'⟩ := ih hrest hmem
      exact ⟨c', List.mem_cons_of_mem _ hc', hfc'⟩

end Checks
