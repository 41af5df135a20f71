import Dugite.Plutus.Budget

/-!
# Budgeted runs end

A step that enters a term is only collected, and handing back a value costs nothing. So the measure
of a run has two parts: what remains and how many steps may still be collected (`BudgetTracker.fuel`),
which entering a term makes smaller, and the height of the stack, which handing back a value does.
-/

namespace Dugite.Uplc

open BudgetTracker ExBudget Simulation

/-- No cost is negative, and entering a term costs something; `error` ends the run at once. -/
structure Charging (costs : MachineCosts) (builtinCosts : BuiltinCosts) : Prop where
  step : ∀ term, term ≠ .error → 0 ≤ costs.costFor term ∧ costs.costFor term ≠ 0
  builtin : ∀ variant id args, 0 ≤ builtinCosts variant id args

/-- How far the stack goes up while values are handed back. -/
def State.height : State → Nat
  | .ret _ kont => kont.length + 1
  | _ => 0

def BudgetTracker.fuel (t : BudgetTracker) : Nat :=
  (slippage + 1) * (t.remaining.cpu.toNat + t.remaining.mem.toNat) + (slippage - t.pendingCount)

/-- Something is collected exactly if steps have been. -/
structure Restricts (costs : MachineCosts) (builtinCosts : BuiltinCosts) (t : BudgetTracker) :
    Prop where
  costs : t.costs = costs
  builtinCosts : t.builtinCosts = builtinCosts
  restricting : t.counting = false
  pending : 0 ≤ t.pending
  collected : t.pendingCount = 0 ↔ t.pending = 0

section
variable {denote : Denotation} {variant : SemanticsVariant} {costs : MachineCosts}
  {builtinCosts : BuiltinCosts} {t t' : BudgetTracker} {s s' : State} {cost : ExBudget}

theorem spend_ok (hcounting : t.counting = false) (hcost : 0 ≤ cost) (h : t.spend cost = .ok t') :
    ∃ r : ExBudget, t' = { t with remaining := r, counting := false } ∧
      r.cpu.toNat + cost.cpu.toNat ≤ t.remaining.cpu.toNat ∧
      r.mem.toNat + cost.mem.toNat ≤ t.remaining.mem.toNat := by
  rw [spend, hcounting, if_neg Bool.false_ne_true, trySubtract] at h
  split_ifs at h with hneg
  cases h
  obtain ⟨hcpu, hmem⟩ : 0 ≤ cost.cpu ∧ 0 ≤ cost.mem := hcost
  refine ⟨_, rfl, ?_⟩
  simp only [satSubI64] at hneg ⊢
  omega

namespace Restricts

variable (h : Restricts costs builtinCosts t)
include h

/-- A flush leaves nothing to collect, and takes something off if anything was collected. -/
theorem flush (hflush : t.flush = .ok t') : Restricts costs builtinCosts t' ∧ t'.fuel ≤ t.fuel ∧
    (t.pendingCount ≠ 0 → t'.fuel < t.fuel) := by
  obtain ⟨hcosts, hbuiltins, hcounting, hpending, hcollected⟩ := h
  unfold BudgetTracker.flush at hflush
  dsimp only at hflush
  split_ifs at hflush with hzero
  · cases hflush
    have hnone := hcollected.2 (ext_iff.2 hzero)
    refine ⟨⟨hcosts, hbuiltins, hcounting, ⟨le_rfl, le_rfl⟩, iff_of_true rfl rfl⟩, ?_, absurd hnone⟩
    rw [fuel, fuel, hnone]
  · obtain ⟨r, rfl, hcpu, hmem⟩ := spend_ok (by exact hcounting) hpending hflush
    obtain ⟨hcpu', hmem'⟩ : 0 ≤ t.pending.cpu ∧ 0 ≤ t.pending.mem := hpending
    refine ⟨⟨hcosts, hbuiltins, rfl, ⟨le_rfl, le_rfl⟩, iff_of_true rfl rfl⟩, ?_⟩
    simp only [fuel, slippage] at *
    omega

theorem collect (hcost : 0 ≤ cost) (hne : cost ≠ 0) (hcollect : t.collect cost = .ok t') :
    Restricts costs builtinCosts t' ∧ t'.fuel < t.fuel := by
  obtain ⟨hcosts, hbuiltins, hcounting, hpending, hcollected⟩ := h
  have hnew : Restricts costs builtinCosts { t with
      pending := ⟨satAddI64 t.pending.cpu cost.cpu, satAddI64 t.pending.mem cost.mem⟩
      pendingCount := t.pendingCount + 1 } := by
    refine ⟨hcosts, hbuiltins, hcounting, ?_, iff_of_false (Nat.succ_ne_zero _) ?_⟩
    all_goals
      simp only [satAddI64, i64Max, le_def, ext_iff, ne_eq, cpu_zero, mem_zero] at *
      omega
  unfold BudgetTracker.collect at hcollect
  dsimp only at hcollect
  split at hcollect
  · obtain ⟨ht', -, hlt⟩ := hnew.flush hcollect
    refine ⟨ht', ?_⟩
    simp only [fuel] at *
    omega
  · cases hcollect
    refine ⟨hnew, ?_⟩
    simp only [fuel] at *
    omega

theorem charge (hcost : 0 ≤ cost) (hcharge : t.charge cost = .ok t') :
    Restricts costs builtinCosts t' ∧ t'.fuel ≤ t.fuel := by
  unfold BudgetTracker.charge at hcharge
  cases hflush : t.flush with
  | error e =>
    rw [hflush] at hcharge
    cases hcharge
  | ok t₁ =>
    rw [hflush] at hcharge
    obtain ⟨ht₁, hle, -⟩ := h.flush hflush
    obtain ⟨r, rfl, hcpu, hmem⟩ := spend_ok ht₁.restricting hcost hcharge
    refine ⟨{ ht₁ with restricting := rfl }, ?_⟩
    simp only [fuel, slippage] at *
    omega

end Restricts

/-- Handing back a value makes the stack lower. -/
theorem height_lt {v : Value} {kont : Kont} (h : freeLoop denote variant (.ret v kont) = .inl s') :
    s'.height < (State.ret v kont).height := by
  have hstep : freeStep denote variant (.ret v kont) = .ok s' := by
    rw [freeLoop] at h
    split at h <;> cases h
    assumption
  unfold freeStep step returnCompute apply forceValue at hstep
  simp only [bind, Except.bind, pure, Except.pure, Except.map] at hstep
  grind [State.height]

/-- A turn makes the measure smaller. -/
theorem Restricts.turn (hpos : Charging costs builtinCosts) (h : Restricts costs builtinCosts t)
    (hturn : t.turn variant s = .ok t') (hnext : freeLoop denote variant s = .inl s') :
    Restricts costs builtinCosts t' ∧
      Prod.Lex (· < ·) (· < ·) (t'.fuel, s'.height) (t.fuel, s.height) := by
  rw [BudgetTracker.turn, h.costs, h.builtinCosts] at hturn
  cases s with
  | compute term env kont =>
    have hne : term ≠ .error := by
      rintro rfl
      cases hnext
    obtain ⟨hcost, hsome⟩ := hpos.step term hne
    obtain ⟨ht', hlt⟩ := h.collect hcost hsome hturn
    exact ⟨ht', .left _ _ hlt⟩
  | done v => cases hnext
  | ret v kont =>
    have hlower := height_lt hnext
    rw [debit] at hturn
    · cases hcall : firing (.ret v kont) with
      | none =>
        rw [hcall] at hturn
        cases hturn
        exact ⟨h, .right _ hlower⟩
      | some call =>
        rw [hcall] at hturn
        obtain ⟨ht', hle⟩ := h.charge (hpos.builtin variant call.1 call.2) hturn
        exact ⟨ht', Prod.lex_iff.2 (hle.lt_or_eq.imp_right fun heq => ⟨heq, hlower⟩)⟩
    · rintro _ _ _ ⟨⟩

theorem Restricts.halts (hpos : Charging costs builtinCosts) (s : State) (t : BudgetTracker)
    (h : Restricts costs builtinCosts t) :
    ∃ n result, run (budgetLoop denote variant) n (s, t) = some result := by
  cases hturn : t.turn variant s with
  | error e => exact ⟨1, .error e, by rw [run_budget_succ, hturn]⟩
  | ok t' =>
  cases hfree : freeLoop denote variant s with
  | inr result => exact ⟨1, _, by rw [run_budget_succ, hturn, hfree]; rfl⟩
  | inl s' =>
    obtain ⟨ht', hlt⟩ := h.turn hpos hturn hfree
    obtain ⟨n, result, hn⟩ := Restricts.halts hpos s' t' ht'
    exact ⟨n + 1, result, by rw [run_budget_succ, hturn, hfree]; exact hn⟩
termination_by (t.fuel, s.height)
decreasing_by exact hlt

/-- Whatever the budget, evaluation within it ends. -/
theorem evaluation_ends (hpos : Charging costs builtinCosts) (budget : ExBudget) (term : Term) :
    ∃ result, EvaluatesWithBudget denote variant term (.withApplied budget costs builtinCosts)
      result := by
  obtain ⟨n, result, hn⟩ := Restricts.halts hpos (initial term)
    (.withApplied budget costs builtinCosts)
    ⟨rfl, rfl, rfl, ⟨le_rfl, le_rfl⟩, iff_of_true rfl rfl⟩
  exact ⟨result, n, hn⟩

end

/-- `chooseUnit` hands back its second argument. -/
def chooseSecond : Denotation := fun _ _ args => args[1]?.elim (.error .scriptError) .ok

/-- A function applied to itself, by way of `chooseUnit`. -/
def selfApplied (f : Term) : Term :=
  .app f (.app (.app (.force (.builtin .chooseUnit)) (.const .unit)) f)

theorem selfApplied_ends : ∃ result, EvaluatesWithBudget chooseSecond .latest
    (selfApplied (.lam (selfApplied (.var 1))))
    (.withApplied ⟨10 ^ 6, 10 ^ 6⟩ .default fun _ _ _ => 0) result := by
  have hstep : 0 ≤ (⟨16000, 100⟩ : ExBudget) ∧ (⟨16000, 100⟩ : ExBudget) ≠ 0 := by decide
  refine evaluation_ends ⟨fun term hne => ?_, fun _ _ _ => ⟨le_rfl, le_rfl⟩⟩ _ _
  cases term with
  | error => exact absurd rfl hne
  | _ => exact hstep

/-! ## A builtin that refunds -/

/-- Each builtin refunds what the steps of a lap cost. -/
def refunding : BudgetTracker := .withApplied ⟨10 ^ 6, 10 ^ 6⟩ .default fun _ _ _ => ⟨-128000, -800⟩

/-- Each step costs something, and yet the run does not end. -/
theorem refund_runs_on : (∀ term, term ≠ .error → 1 ≤ (MachineCosts.default.costFor term).cpu) ∧
    ¬∃ result, EvaluatesWithBudget chooseSecond .latest
      (selfApplied (.lam (selfApplied (.var 1)))) refunding result := by
  refine ⟨fun term hne => ?_, fun ⟨result, n, hn⟩ => ?_⟩
  · have hstep : (1 : Int) ≤ 16000 := by decide
    cases term with
    | error => exact absurd rfl hne
    | _ => exact hstep
  · have hlater := run_mono hn (Nat.le_add_right n 15)
    exact not_halts_of_lap (k := 14) (fun _ => rfl) ⟨n, hlater⟩

end Dugite.Uplc
