import Dugite.Plutus.Adequacy

/-!
# The budget of a script

Each step of `compute` is charged by the kind of its term and each builtin by its arguments. The
costs of steps are collected and subtracted from the budget in batches (`BudgetTracker.flush`); the
cost of a builtin is subtracted at once, after what has been collected.

`charges` are the charges of a run without a budget, in the order in which they are made. Batching
makes no difference (`Tracks`): a run within a budget returns exactly if the run without one does
and no charge exceeds the budget, except that a start-up cost beyond the budget is not noticed
before something is subtracted (`budget_exact_iff`).
-/

namespace Dugite

open Simulation ExBudget Option Nat

namespace ExBudget

instance : Add ExBudget := ⟨fun a b => ⟨a.cpu + b.cpu, a.mem + b.mem⟩⟩

instance : Zero ExBudget := ⟨⟨0, 0⟩⟩

variable {a b : ExBudget}

theorem ext_iff : a = b ↔ a.cpu = b.cpu ∧ a.mem = b.mem := by
  cases a
  cases b
  exact mk.injEq _ _ _ _ ▸ Iff.rfl

instance : LE ExBudget := ⟨fun a b => a.cpu ≤ b.cpu ∧ a.mem ≤ b.mem⟩

@[simp, grind =] theorem cpu_add (a b : ExBudget) : (a + b).cpu = a.cpu + b.cpu := rfl

@[simp, grind =] theorem mem_add (a b : ExBudget) : (a + b).mem = a.mem + b.mem := rfl

@[simp, grind =] theorem cpu_zero : (0 : ExBudget).cpu = 0 := rfl

@[simp, grind =] theorem mem_zero : (0 : ExBudget).mem = 0 := rfl

@[grind =] theorem le_def : a ≤ b ↔ a.cpu ≤ b.cpu ∧ a.mem ≤ b.mem := Iff.rfl

instance (a b : ExBudget) : Decidable (a ≤ b) := inferInstanceAs (Decidable (_ ∧ _))

theorem le_of_add_le {a b c : ExBudget} (hb : 0 ≤ b) (h : a + b ≤ c) : a ≤ c := by
  grind

instance : AddCommMonoid ExBudget where
  add_assoc a b c := ext_iff.2 ⟨Int.add_assoc _ _ _, Int.add_assoc _ _ _⟩
  zero_add a := ext_iff.2 ⟨Int.zero_add _, Int.zero_add _⟩
  add_zero a := ext_iff.2 ⟨Int.add_zero _, Int.add_zero _⟩
  add_comm a b := ext_iff.2 ⟨Int.add_comm _ _, Int.add_comm _ _⟩
  nsmul := nsmulRec

/-- Subtract, unless a dimension would be negative. -/
def trySubtract (self other : ExBudget) : Option ExBudget :=
  let cpu := satSubI64 self.cpu other.cpu
  let mem := satSubI64 self.mem other.mem
  if cpu < 0 ∨ mem < 0 then none else some ⟨cpu, mem⟩

def subtractSaturating (self other : ExBudget) : ExBudget :=
  ⟨satSubI64 self.cpu other.cpu, satSubI64 self.mem other.mem⟩

end ExBudget

/-- `i64::saturating_add`. -/
def satAddI64 (a b : Int) : Int := max (-(2 ^ 63)) (min (a + b) i64Max)

/-- `-` on `i64`, which wraps in a release build. -/
def wrapSubI64 (a b : Int) : Int := (BitVec.ofInt 64 (a - b)).toInt

namespace Uplc

structure MachineCosts where
  (startup var constant lam delay force apply builtin constr case : ExBudget)

/-- The defaults of Plutus 1.65. -/
def MachineCosts.default : MachineCosts where
  startup := ⟨100, 100⟩
  var := ⟨16000, 100⟩
  constant := ⟨16000, 100⟩
  lam := ⟨16000, 100⟩
  delay := ⟨16000, 100⟩
  force := ⟨16000, 100⟩
  apply := ⟨16000, 100⟩
  builtin := ⟨16000, 100⟩
  constr := ⟨16000, 100⟩
  case := ⟨16000, 100⟩

/-- The cost of entering a term. -/
def MachineCosts.costFor (costs : MachineCosts) : Term → ExBudget
  | .var _ => costs.var
  | .const _ => costs.constant
  | .lam _ => costs.lam
  | .delay _ => costs.delay
  | .force _ => costs.force
  | .app _ _ => costs.apply
  | .builtin _ => costs.builtin
  | .constr _ _ => costs.constr
  | .case _ _ => costs.case
  | .error => 0

/-- `charge_for_args`: the cost of a builtin with its arguments. -/
abbrev BuiltinCosts := SemanticsVariant → BuiltinId → List Value → ExBudget

/-- How many steps are collected before they are subtracted. -/
def slippage : Nat := 200

structure BudgetTracker where
  (remaining starting : ExBudget)
  costs : MachineCosts
  builtinCosts : BuiltinCosts
  /-- What has been collected since the last flush, and how many steps that were. -/
  pending : ExBudget := 0
  pendingCount : Nat := 0
  /-- Only add up, and never fail. -/
  counting : Bool := false
  countingSpent : ExBudget := 0

namespace BudgetTracker

/-- `with_applied`: the start-up cost is taken off at once, whatever is left then. -/
def withApplied (initial : ExBudget) (costs : MachineCosts) (builtinCosts : BuiltinCosts) :
    BudgetTracker where
  remaining := initial.subtractSaturating costs.startup
  starting := initial
  costs
  builtinCosts

variable (t : BudgetTracker)

def exhausted : UplcError := .budgetExhausted t.remaining.cpu t.remaining.mem

/-- Take a cost off what remains. -/
def spend (cost : ExBudget) : Except UplcError BudgetTracker :=
  if t.counting then
    .ok { t with countingSpent :=
      ⟨satAddI64 t.countingSpent.cpu cost.cpu, satAddI64 t.countingSpent.mem cost.mem⟩ }
  else match t.remaining.trySubtract cost with
    | some remaining => .ok { t with remaining }
    | none => .error t.exhausted

/-- Take off what has been collected, if that is anything. -/
def flush : Except UplcError BudgetTracker :=
  let cost := t.pending
  let t := { t with pending := 0, pendingCount := 0 }
  if cost.cpu = 0 ∧ cost.mem = 0 then .ok t else t.spend cost

/-- Collect the cost of a step. -/
def collect (cost : ExBudget) : Except UplcError BudgetTracker :=
  let t := { t with
    pending := ⟨satAddI64 t.pending.cpu cost.cpu, satAddI64 t.pending.mem cost.mem⟩
    pendingCount := t.pendingCount + 1 }
  if slippage ≤ t.pendingCount then t.flush else .ok t

def computeStep (term : Term) : Except UplcError BudgetTracker := t.collect (t.costs.costFor term)

def charge (cost : ExBudget) : Except UplcError BudgetTracker := do (← t.flush).spend cost

def consumed : ExBudget :=
  if t.counting then
    ⟨satAddI64 t.countingSpent.cpu t.pending.cpu, satAddI64 t.countingSpent.mem t.pending.mem⟩
  else
    ⟨satAddI64 (wrapSubI64 t.starting.cpu t.remaining.cpu) t.pending.cpu,
      satAddI64 (wrapSubI64 t.starting.mem t.remaining.mem) t.pending.mem⟩

/-- What a builtin does to a tracker. -/
def chargeBuiltin : Charge BudgetTracker :=
  fun variant id args t => t.charge (t.builtinCosts variant id args)

/-- What the state at the head of the loop does to it. -/
def enter (t : BudgetTracker) : State → Except UplcError BudgetTracker
  | .compute term _ _ => t.computeStep term
  | _ => .ok t

end BudgetTracker

section Run
variable (denote : Denotation) (variant : SemanticsVariant)

/-- One turn of the loop of `evaluate_with_budget`. -/
def budgetLoop : State × BudgetTracker → (State × BudgetTracker) ⊕ Except UplcError (Value × BudgetTracker)
  | (state, t) =>
    match t.enter state with
    | .error e => .inr (.error e)
    | .ok t => match step denote BudgetTracker.chargeBuiltin variant state t with
      | .error e => .inr (.error e)
      | .ok (.done v, t) => .inr (t.flush.map (v, ·))
      | .ok next => .inl next

/-- `evaluate_with_budget` returns with this result. -/
def EvaluatesWithBudget (term : Term) (t : BudgetTracker)
    (result : Except UplcError (Value × BudgetTracker)) : Prop :=
  Simulation.Halts (budgetLoop denote variant) (initial term, t) result

end Run

/-! ## What is charged -/

/-- The builtin that an argument makes complete. -/
def firingApply : Value → Value → Option (BuiltinId × List Value)
  | .builtin id forces args, arg =>
    if (arityOf id).1 ≤ forces ∧ (args ++ [arg]).length % 256 = (arityOf id).2 then
      some (id, args ++ [arg])
    else none
  | _, _ => none

/-- The builtin that a force makes complete. -/
def firingForce : Value → Option (BuiltinId × List Value)
  | .builtin id forces _ =>
    if forces + 1 = (arityOf id).1 ∧ (arityOf id).2 = 0 then some (id, []) else none
  | _ => none

/-- The builtin that runs in the next step. -/
def firing : State → Option (BuiltinId × List Value)
  | .ret v (.awaitArg function _ :: _) => firingApply function v
  | .ret v (.applyValue argument :: _) => firingApply v argument
  | .ret v (.force :: _) => firingForce v
  | _ => none

section Firing
variable {τ : Type} {denote : Denotation} (charge : Charge τ) {variant : SemanticsVariant}

/-- Charge a builtin, if one runs. -/
def pay (variant : SemanticsVariant) (call : Option (BuiltinId × List Value)) (t : τ) :
    Except UplcError τ :=
  match call with
  | some (id, args) => charge variant id args t
  | none => .ok t

theorem applyBuiltin_eq (id : BuiltinId) (forces : Nat) (args : List Value) (arg : Value) (t : τ) :
    applyBuiltin denote charge variant id forces args arg t =
      (pay charge variant (firingApply (.builtin id forces args) arg) t).bind fun t =>
        (applyBuiltin denote freeCharge variant id forces args arg ()).map fun r => (r.1, t) := by
  unfold applyBuiltin firingApply
  dsimp only
  by_cases hforces : forces < (arityOf id).1
  · rw [if_pos hforces, if_pos hforces, if_neg fun h => absurd h.1 (not_le.2 hforces)]
    rfl
  rw [if_neg hforces, if_neg hforces]
  rcases lt_trichotomy ((args ++ [arg]).length % 256) (arityOf id).2 with hlt | heq | hgt
  · rw [if_pos hlt, if_pos hlt, if_neg fun h => absurd h.2 hlt.ne]
    rfl
  · rw [if_neg heq.not_lt, if_neg heq.not_gt, if_neg heq.not_lt, if_neg heq.not_gt,
      if_pos ⟨not_lt.1 hforces, heq⟩]
    simp only [pay, freeCharge, bind, Except.bind, pure, Except.pure]
    cases charge variant id (args ++ [arg]) t with
    | error e => rfl
    | ok t => cases denote variant id (args ++ [arg]) <;> rfl
  · rw [if_neg hgt.not_gt, if_pos hgt, if_neg hgt.not_gt, if_pos hgt,
      if_neg fun h => absurd h.2 hgt.ne']
    rfl

theorem forceBuiltin_eq (id : BuiltinId) (forces : Nat) (args : List Value) (t : τ) :
    forceBuiltin denote charge variant id forces args t =
      (pay charge variant (firingForce (.builtin id forces args)) t).bind fun t =>
        (forceBuiltin denote freeCharge variant id forces args ()).map fun r => (r.1, t) := by
  unfold forceBuiltin firingForce
  dsimp only
  by_cases hfull : forces + 1 = (arityOf id).1 ∧ (arityOf id).2 = 0
  · have hlt : forces < (arityOf id).1 := by omega
    rw [if_pos hlt, if_pos hlt, if_pos hfull, if_pos hfull, if_pos hfull]
    simp only [pay, freeCharge, bind, Except.bind, pure, Except.pure]
    cases charge variant id [] t with
    | error e => rfl
    | ok t => cases denote variant id [] <;> rfl
  · rw [if_neg hfull, if_neg hfull, if_neg hfull]
    split_ifs <;> rfl

theorem apply_eq (function argument : Value) (kont : Kont) (t : τ) :
    apply denote charge variant function argument kont t =
      (pay charge variant (firingApply function argument) t).bind fun t =>
        (apply denote freeCharge variant function argument kont ()).map fun r => (r.1, t) := by
  cases function with
  | builtin id forces args =>
    simp only [apply, applyBuiltin_eq charge, bind, pure, Except.pure]
    cases pay charge variant (firingApply (.builtin id forces args) argument) t with
    | error e => rfl
    | ok t => cases applyBuiltin denote freeCharge variant id forces args argument () <;> rfl
  | _ => rfl

theorem forceValue_eq (v : Value) (kont : Kont) (t : τ) :
    forceValue denote charge variant v kont t = (pay charge variant (firingForce v) t).bind fun t =>
        (forceValue denote freeCharge variant v kont ()).map fun r => (r.1, t) := by
  cases v with
  | builtin id forces args =>
    simp only [forceValue, forceBuiltin_eq charge, bind, pure, Except.pure]
    cases pay charge variant (firingForce (.builtin id forces args)) t with
    | error e => rfl
    | ok t => cases forceBuiltin denote freeCharge variant id forces args () <;> rfl
  | _ => rfl

/-- A step charges the builtin that runs in it and is otherwise the step without a budget. -/
theorem step_eq (s : State) (t : τ) : step denote charge variant s t =
    (pay charge variant (firing s) t).bind fun t => (freeStep denote variant s).map (·, t) := by
  have hmap : ∀ (t : τ) (r : Except UplcError (State × Unit)),
      r.map (fun r => (r.1, t)) = (r.map (·.1)).map (·, t) := by
    rintro t (e | r) <;> rfl
  unfold freeStep
  cases s with
  | compute term env kont =>
    simp only [step, firing, pay, Except.bind]
    cases compute term env kont <;> rfl
  | done v => rfl
  | ret v kont =>
  cases kont with
  | nil => rfl
  | cons frame kont =>
  cases frame with
  | awaitArg function env =>
    simp only [step, returnCompute, firing, ← hmap]
    exact apply_eq charge function v kont t
  | applyValue argument =>
    simp only [step, returnCompute, firing, ← hmap]
    exact apply_eq charge v argument kont t
  | force =>
    simp only [step, returnCompute, firing, ← hmap]
    exact forceValue_eq charge v kont t
  | awaitFunTerm argument env => rfl
  | constr tag pending evaluated env => cases pending <;> rfl
  | cases branches env =>
  simp only [step, returnCompute, firing, pay, bind, Except.bind]
  cases projectScrutinee variant branches.length v with
  | error e => rfl
  | ok r =>
  dsimp only
  split
  · rfl
  · cases branches[r.1]? <;> rfl

end Firing

/-- One charge: for a step of `compute` or for a builtin. -/
inductive Debit where
  | step (cost : ExBudget)
  | builtin (cost : ExBudget)
  deriving DecidableEq

def Debit.cost : Debit → ExBudget
  | .step cost => cost
  | .builtin cost => cost

section Debits
variable (denote : Denotation) (variant : SemanticsVariant) (costs : MachineCosts)
  (builtinCosts : BuiltinCosts)

/-- What one turn of the loop is charged. -/
def debit : State → Option Debit
  | .compute term _ _ => some (.step (costs.costFor term))
  | s => (firing s).map fun call => .builtin (builtinCosts variant call.1 call.2)

/-- What the first `n` turns of a run without a budget are charged. -/
def charges : Nat → State → List Debit
  | 0, _ => []
  | n + 1, s => (debit variant costs builtinCosts s).toList ++
      (freeLoop denote variant s).elim (charges n) fun _ => []

end Debits

def total (debits : List Debit) : ExBudget := (debits.map Debit.cost).sum

theorem total_append (ds es : List Debit) : total (ds ++ es) = total ds + total es := by
  rw [total, List.map_append, List.sum_append, total, total]

theorem total_toList_some (d : Debit) : total (some d).toList = d.cost := add_zero _

/-- Charge a tracker. -/
def BudgetTracker.take (t : BudgetTracker) : Debit → Except UplcError BudgetTracker
  | .step cost => t.collect cost
  | .builtin cost => t.charge cost

/-- Charge a tracker for a turn of the loop. -/
def BudgetTracker.turn (variant : SemanticsVariant) (s : State) (t : BudgetTracker) :
    Except UplcError BudgetTracker :=
  (debit variant t.costs t.builtinCosts s).elim (.ok t) t.take

open BudgetTracker

theorem enter_pay (variant : SemanticsVariant) (s : State) (t : BudgetTracker) :
    (t.enter s).bind (pay chargeBuiltin variant (firing s)) = t.turn variant s := by
  cases s with
  | compute term env kont =>
    simp only [enter, firing, turn, debit, elim_some,
      take, computeStep]
    cases t.collect (t.costs.costFor term) <;> rfl
  | ret v kont =>
    simp only [enter, turn, debit, Except.bind]
    cases firing (.ret v kont) <;> rfl
  | done v => rfl

/-- A turn of the loop with a budget charges the tracker and is otherwise the one without. -/
theorem run_budget_succ (denote : Denotation) (variant : SemanticsVariant) (n : Nat) (s : State)
    (t : BudgetTracker) : run (budgetLoop denote variant) (n + 1) (s, t) =
      match t.turn variant s with
      | .error e => some (.error e)
      | .ok t => (freeLoop denote variant s).elim
          (fun s => run (budgetLoop denote variant) n (s, t))
          fun result => some (result.bind fun v => t.flush.map (v, ·)) := by
  rw [← enter_pay, run, budgetLoop, freeLoop]
  cases t.enter s with
  | error e => rfl
  | ok t =>
  simp only [Except.bind, step_eq]
  cases pay chargeBuiltin variant (firing s) t with
  | error e => rfl
  | ok t =>
    cases freeStep denote variant s with
    | error e => rfl
    | ok s' => cases s' <;> rfl

/-! ## Batching makes no difference -/

/-- The greatest budget there is. -/
def maxBudget : ExBudget := ⟨i64Max, i64Max⟩

/-- The tracker has been charged `spent` in all, of which `pending` is not taken off yet. -/
structure Tracks (costs : MachineCosts) (builtinCosts : BuiltinCosts) (start spent : ExBudget)
    (t : BudgetTracker) : Prop where
  costs : t.costs = costs
  builtinCosts : t.builtinCosts = builtinCosts
  restricting : t.counting = false
  starting : t.starting = start
  balanceCpu : t.remaining.cpu + spent.cpu = start.cpu + t.pending.cpu
  balanceMem : t.remaining.mem + spent.mem = start.mem + t.pending.mem
  remaining : 0 ≤ t.remaining
  pending : 0 ≤ t.pending
  flushed : t.pending ≤ spent

section Tracks
variable {costs : MachineCosts} {builtinCosts : BuiltinCosts} {start spent cost : ExBudget}
  {t t' : BudgetTracker} {a b : Int}

theorem satSubI64_eq (ha : 0 ≤ a) (ha' : a ≤ i64Max) (hb : 0 ≤ b) (hb' : b ≤ i64Max) :
    satSubI64 a b = a - b := by
  rw [i64Max] at ha' hb'
  rw [satSubI64, i64Max]
  omega

theorem satAddI64_eq (ha : 0 ≤ a) (hb : 0 ≤ b) (h : a + b ≤ i64Max) : satAddI64 a b = a + b := by
  rw [satAddI64]
  omega

theorem wrapSubI64_eq (h : 0 ≤ a - b) (h' : a - b ≤ i64Max) : wrapSubI64 a b = a - b := by
  rw [i64Max] at h'
  rw [wrapSubI64, BitVec.toInt_ofInt, Int.bmod_eq_of_le (by omega) (by omega)]

/-- Taking a cost off what remains. -/
theorem spend_cases (hcounting : t.counting = false) (hr : 0 ≤ t.remaining)
    (hr' : t.remaining ≤ maxBudget) (hc : 0 ≤ cost) (hc' : cost ≤ maxBudget) :
    (cost ≤ t.remaining ∧ t.spend cost = .ok { t with
      remaining := ⟨t.remaining.cpu - cost.cpu, t.remaining.mem - cost.mem⟩ }) ∨
    (¬ cost ≤ t.remaining ∧ t.spend cost = .error t.exhausted) := by
  simp only [spend, hcounting, trySubtract, sub_neg,
    satSubI64_eq hr.1 hr'.1 hc.1 hc'.1, satSubI64_eq hr.2 hr'.2 hc.2 hc'.2]
  rw [if_neg Bool.false_ne_true]
  by_cases hlt : t.remaining.cpu < cost.cpu ∨ t.remaining.mem < cost.mem
  · refine .inr ⟨fun hle => ?_, ?_⟩
    · obtain ⟨hcpu, hmem⟩ := hle
      omega
    · rw [if_pos hlt]
  · refine .inl ⟨⟨by omega, by omega⟩, ?_⟩
    rw [if_neg hlt]

namespace Tracks

section
variable (h : Tracks costs builtinCosts start spent t) (hstart : start ≤ maxBudget)
include h hstart

/-- A flush succeeds exactly if the budget covers what has been charged. -/
theorem flush_cases (hspent : spent ≤ maxBudget) :
    (spent ≤ start ∧ ∃ t', t.flush = .ok t' ∧ Tracks costs builtinCosts start spent t' ∧
      t'.pending = 0) ∨
    (¬ spent ≤ start ∧ ∃ e, t.flush = .error e) := by
  obtain ⟨hcosts, hbuiltins, hcounting, hstarting, hcpu, hmem, hremaining, hpending, hflushed⟩ := h
  have hmax : t.remaining ≤ maxBudget := by grind
  unfold flush
  dsimp only
  split_ifs with hzero
  · refine .inl ⟨by grind, _, rfl, ⟨hcosts, hbuiltins, hcounting, hstarting, ?_, ?_, hremaining, ?_,
      ?_⟩, rfl⟩
    all_goals grind
  have hcost : t.pending ≤ maxBudget := by grind
  rcases spend_cases (t := { t with pending := 0, pendingCount := 0 }) hcounting hremaining hmax
    hpending hcost with ⟨hle, hok⟩ | ⟨hle, herror⟩
  · rw [hok]
    refine .inl ⟨by grind, _, rfl, ⟨hcosts, hbuiltins, hcounting, hstarting, ?_, ?_, ?_, ?_, ?_⟩,
      rfl⟩
    all_goals grind
  · exact .inr ⟨by grind, _, herror⟩

theorem collect_cases (hcost : 0 ≤ cost) (hspent : spent + cost ≤ maxBudget) :
    (∃ t', t.collect cost = .ok t' ∧ Tracks costs builtinCosts start (spent + cost) t') ∨
    (¬ spent + cost ≤ start ∧ ∃ e, t.collect cost = .error e) := by
  obtain ⟨hcosts, hbuiltins, hcounting, hstarting, hcpu, hmem, hremaining, hpending, hflushed⟩ := h
  have hmax : (⟨i64Max, i64Max⟩ : ExBudget) = maxBudget := rfl
  have hsumCpu := satAddI64_eq hpending.1 hcost.1 (by grind)
  have hsumMem := satAddI64_eq hpending.2 hcost.2 (by grind)
  unfold collect
  dsimp only
  rw [hsumCpu, hsumMem]
  -- what has been collected is tracked, whether or not it is flushed now
  have htracks : Tracks costs builtinCosts start (spent + cost)
      { t with pending := ⟨t.pending.cpu + cost.cpu, t.pending.mem + cost.mem⟩
               pendingCount := t.pendingCount + 1 } := by
    refine ⟨hcosts, hbuiltins, hcounting, hstarting, ?_, ?_, hremaining, ?_, ?_⟩
    all_goals grind
  split
  · rcases htracks.flush_cases hstart hspent with ⟨-, t', hok, ht', -⟩ | hfail
    · exact .inl ⟨t', hok, ht'⟩
    · exact .inr hfail
  · exact .inl ⟨_, rfl, htracks⟩

theorem charge_cases (hcost : 0 ≤ cost) (hspent : spent + cost ≤ maxBudget) :
    (∃ t', t.charge cost = .ok t' ∧ Tracks costs builtinCosts start (spent + cost) t') ∨
    (¬ spent + cost ≤ start ∧ ∃ e, t.charge cost = .error e) := by
  unfold charge
  rcases h.flush_cases hstart (by grind) with ⟨-, t', hok, ht', hzero⟩ | ⟨hle, e, herror⟩
  · obtain ⟨hcosts, hbuiltins, hcounting, hstarting, hcpu, hmem, hremaining, hpending, hflushed⟩ := ht'
    rw [hok]
    simp only [bind, Except.bind]
    rcases spend_cases (t := t') hcounting hremaining (by grind) hcost (by grind) with
      ⟨hle, hspend⟩ | ⟨hle, hspend⟩
    · rw [hspend]
      refine .inl ⟨_, rfl, ⟨hcosts, hbuiltins, hcounting, hstarting, ?_, ?_, ?_, hpending, ?_⟩⟩
      all_goals grind
    · exact .inr ⟨by grind, _, hspend⟩
  · refine .inr ⟨by grind, e, ?_⟩
    rw [herror]
    rfl

end

/-- After a flush `consumed` is what has been charged. -/
theorem consumed_eq (h : Tracks costs builtinCosts start spent t) (hspent : spent ≤ maxBudget)
    (hzero : t.pending = 0) : t.consumed = spent := by
  obtain ⟨-, -, hcounting, hstarting, hcpu, hmem, hremaining, hpending, hflushed⟩ := h
  have hmax : (⟨i64Max, i64Max⟩ : ExBudget) = maxBudget := rfl
  rw [consumed, hcounting, if_neg Bool.false_ne_true, hstarting, hzero,
    wrapSubI64_eq (by grind) (by grind), wrapSubI64_eq (by grind) (by grind),
    satAddI64_eq (by grind) (by grind) (by grind), satAddI64_eq (by grind) (by grind) (by grind)]
  congr 1 <;> grind

end Tracks

end Tracks

/-! ## Whole runs -/

/-- No entry of the cost model is negative. -/
structure NonNegative (costs : MachineCosts) (builtinCosts : BuiltinCosts) : Prop where
  startup : 0 ≤ costs.startup
  step : ∀ term, 0 ≤ costs.costFor term
  builtin : ∀ variant id args, 0 ≤ builtinCosts variant id args

section Runs
variable {denote : Denotation} {variant : SemanticsVariant} {costs : MachineCosts}
  {builtinCosts : BuiltinCosts} {start spent : ExBudget} {t : BudgetTracker} {s : State} {n : Nat}
  {v : Value}

theorem NonNegative.debit (h : NonNegative costs builtinCosts) {d : Debit}
    (hd : debit variant costs builtinCosts s = some d) : 0 ≤ d.cost := by
  have hcall : ∀ call : Option (BuiltinId × List Value),
      call.map (fun call => Debit.builtin (builtinCosts variant call.1 call.2)) = some d →
        0 ≤ d.cost := by
    intro call hd
    obtain ⟨call, -, rfl⟩ := map_eq_some_iff.1 hd
    exact h.builtin variant call.1 call.2
  cases s with
  | compute term env kont =>
    cases hd
    exact h.step term
  | ret v kont => exact hcall _ hd
  | done v => cases hd

theorem NonNegative.total (h : NonNegative costs builtinCosts) (n : Nat) (s : State) :
    0 ≤ total (charges denote variant costs builtinCosts n s) := by
  induction n generalizing s with
  | zero => exact ⟨le_rfl, le_rfl⟩
  | succ n ih =>
    have hrest : 0 ≤ Uplc.total ((freeLoop denote variant s).elim
        (charges denote variant costs builtinCosts n) fun _ => []) := by
      cases freeLoop denote variant s with
      | inl s' => exact ih s'
      | inr result => exact ⟨le_rfl, le_rfl⟩
    rw [charges, total_append]
    cases hd : Uplc.debit variant costs builtinCosts s with
    | none => rwa [toList_none, show Uplc.total [] = 0 from rfl, zero_add]
    | some d =>
      have hcost := h.debit hd
      rw [total_toList_some]
      grind

/-- A run within a budget that returns is a run without one. -/
theorem free_of_budget {t' : BudgetTracker}
    (h : run (budgetLoop denote variant) n (s, t) = some (.ok (v, t'))) :
    run (freeLoop denote variant) n s = some (.ok v) := by
  induction n generalizing s t with
  | zero => cases h
  | succ n ih =>
    rw [run]
    rw [run_budget_succ] at h
    cases hturn : t.turn variant s with
    | error e =>
      rw [hturn] at h
      cases h
    | ok t₁ =>
    rw [hturn] at h
    cases hfree : freeLoop denote variant s with
    | inl s' =>
      rw [hfree] at h
      exact ih h
    | inr result =>
    rw [hfree] at h
    cases result with
    | error e => cases h
    | ok w =>
    dsimp only [Sum.elim_inr, Except.bind] at h
    cases hflush : t₁.flush with
    | error e =>
      rw [hflush] at h
      cases h
    | ok t₂ =>
      rw [hflush] at h
      cases h
      rfl

/-- The first turn of a run that returns. -/
theorem run_free_succ (costs : MachineCosts) (builtinCosts : BuiltinCosts)
    (h : run (freeLoop denote variant) (n + 1) s = some (.ok v)) :
    (∃ s', freeLoop denote variant s = .inl s' ∧ run (freeLoop denote variant) n s' = some (.ok v) ∧
      charges denote variant costs builtinCosts (n + 1) s =
        (debit variant costs builtinCosts s).toList ++
          charges denote variant costs builtinCosts n s') ∨
    freeLoop denote variant s = .inr (.ok v) ∧ charges denote variant costs builtinCosts (n + 1) s =
        (debit variant costs builtinCosts s).toList := by
  rw [run] at h
  rw [charges]
  cases hfree : freeLoop denote variant s with
  | inl s' =>
    rw [hfree] at h
    exact .inl ⟨s', rfl, h, rfl⟩
  | inr result =>
    rw [hfree] at h
    cases h
    exact .inr ⟨rfl, List.append_nil _⟩

section
variable (h : Tracks costs builtinCosts start spent t) (hstart : start ≤ maxBudget)
  (hpos : NonNegative costs builtinCosts)
include h hstart hpos

theorem Tracks.turn
    (hspent : spent + total (debit variant costs builtinCosts s).toList ≤ maxBudget) :
    (∃ t', t.turn variant s = .ok t' ∧ Tracks costs builtinCosts start
      (spent + total (debit variant costs builtinCosts s).toList) t') ∨
    (¬ spent + total (debit variant costs builtinCosts s).toList ≤ start ∧
      ∃ e, t.turn variant s = .error e) := by
  rw [BudgetTracker.turn, h.costs, h.builtinCosts]
  cases hd : debit variant costs builtinCosts s with
  | none =>
    rw [toList_none, show total [] = 0 from rfl, add_zero]
    exact .inl ⟨t, rfl, h⟩
  | some d =>
    rw [hd, total_toList_some] at hspent
    rw [total_toList_some]
    have hcost := hpos.debit hd
    cases d with
    | step cost => exact h.collect_cases hstart hcost hspent
    | builtin cost => exact h.charge_cases hstart hcost hspent

/-- With a start-up cost within the budget, a run returns within the budget exactly if the budget
covers all its charges. -/
theorem Tracks.run (hfree : run (freeLoop denote variant) n s = some (.ok v))
    (hsat : spent + total (charges denote variant costs builtinCosts n s) ≤ maxBudget) :
    (spent + total (charges denote variant costs builtinCosts n s) ≤ start ∧
      ∃ t', run (budgetLoop denote variant) n (s, t) = some (.ok (v, t')) ∧
        t'.consumed = spent + total (charges denote variant costs builtinCosts n s)) ∨
    (¬ spent + total (charges denote variant costs builtinCosts n s) ≤ start ∧
      ∀ r, run (budgetLoop denote variant) n (s, t) ≠ some (.ok r)) := by
  induction n generalizing s t spent with
  | zero => cases hfree
  | succ n ih =>
    rw [run_budget_succ]
    rcases run_free_succ costs builtinCosts hfree with ⟨s', hnext, hrest, hcharges⟩ | ⟨hlast, hcharges⟩
    · rw [hcharges, total_append, ← add_assoc] at hsat ⊢
      have hnonneg : 0 ≤ total (charges denote variant costs builtinCosts n s') := hpos.total n s'
      rcases h.turn hstart hpos (le_of_add_le hnonneg hsat) with
        ⟨t', hturn, ht'⟩ | ⟨hle, e, hturn⟩
      · rw [hturn, hnext]
        exact ih ht' hrest hsat
      · rw [hturn]
        exact .inr ⟨fun hfit => hle (le_of_add_le hnonneg hfit), fun r => nofun⟩
    · rw [hcharges] at hsat ⊢
      rcases h.turn hstart hpos hsat with ⟨t', hturn, ht'⟩ | ⟨hle, e, hturn⟩
      · rw [hturn, hlast]
        simp only [Sum.elim_inr, Except.bind]
        rcases ht'.flush_cases hstart hsat with ⟨hfit, t'', hflush, ht'', hzero⟩ | ⟨hle, e, hflush⟩
        · refine .inl ⟨hfit, t'', ?_, ht''.consumed_eq hsat hzero⟩
          rw [hflush]
          rfl
        · rw [hflush]
          exact .inr ⟨hle, fun r => nofun⟩
      · rw [hturn]
        exact .inr ⟨hle, fun r => nofun⟩

end

/-! ## A budget below the start-up cost -/

/-- The start-up cost has not been covered. -/
structure Overdrawn (costs : MachineCosts) (builtinCosts : BuiltinCosts) (t : BudgetTracker) :
    Prop where
  costs : t.costs = costs
  builtinCosts : t.builtinCosts = builtinCosts
  restricting : t.counting = false
  negative : t.remaining.cpu < 0 ∨ t.remaining.mem < 0
  pending : 0 ≤ t.pending

namespace Overdrawn

variable {cost : ExBudget}

theorem spend_eq (hcounting : t.counting = false)
    (hneg : t.remaining.cpu < 0 ∨ t.remaining.mem < 0) (hcost : 0 ≤ cost) :
    t.spend cost = .error t.exhausted := by
  have hsub : ∀ {a b}, a < 0 → 0 ≤ b → satSubI64 a b < 0 := by
    intro a b ha hb
    rw [satSubI64]
    omega
  have hfail : t.remaining.trySubtract cost = none := by
    refine if_pos ?_
    rcases hneg with hneg | hneg
    · exact .inl (hsub hneg hcost.1)
    · exact .inr (hsub hneg hcost.2)
  rw [spend, hcounting, if_neg Bool.false_ne_true, hfail]

variable (h : Overdrawn costs builtinCosts t)
include h

/-- A flush notices it if there is anything to take off. -/
theorem flush_cases :
    (t.pending = 0 ∧ ∃ t', t.flush = .ok t' ∧ Overdrawn costs builtinCosts t' ∧ t'.pending = 0) ∨
    (t.pending ≠ 0 ∧ ∃ e, t.flush = .error e) := by
  unfold flush
  dsimp only
  split_ifs with hzero
  · refine .inl ⟨ext_iff.2 hzero, _, rfl, { h with pending := ⟨le_rfl, le_rfl⟩ }, rfl⟩
  have hspend := spend_eq (t := { t with pending := 0, pendingCount := 0 }) h.restricting
    h.negative h.pending
  exact .inr ⟨fun heq => hzero (ext_iff.1 heq), _, hspend⟩

theorem collect_cases (hcost : 0 ≤ cost) :
    (∃ t', t.collect cost = .ok t' ∧ Overdrawn costs builtinCosts t' ∧
      (t'.pending = 0 ↔ t.pending = 0 ∧ cost = 0)) ∨
    (¬ (t.pending = 0 ∧ cost = 0) ∧ ∃ e, t.collect cost = .error e) := by
  have hadd : ∀ {a b}, 0 ≤ a → 0 ≤ b → 0 ≤ satAddI64 a b ∧ (satAddI64 a b = 0 ↔ a = 0 ∧ b = 0) := by
    intro a b ha hb
    rw [satAddI64, i64Max]
    omega
  obtain ⟨hcpu, hcpu'⟩ := hadd h.pending.1 hcost.1
  obtain ⟨hmem, hmem'⟩ := hadd h.pending.2 hcost.2
  have hzero : (⟨satAddI64 t.pending.cpu cost.cpu, satAddI64 t.pending.mem cost.mem⟩ : ExBudget) = 0
      ↔ t.pending = 0 ∧ cost = 0 := by
    simp only [ext_iff, cpu_zero, mem_zero] at hcpu' hmem' ⊢
    tauto
  have hnew : Overdrawn costs builtinCosts { t with
      pending := ⟨satAddI64 t.pending.cpu cost.cpu, satAddI64 t.pending.mem cost.mem⟩
      pendingCount := t.pendingCount + 1 } :=
    { h with pending := ⟨hcpu, hmem⟩ }
  unfold collect
  dsimp only
  split
  · rcases hnew.flush_cases with ⟨hnone, t', hok, ht', hpending⟩ | ⟨hsome, herror⟩
    · exact .inl ⟨t', hok, ht', by rw [hpending]; exact ⟨fun _ => hzero.1 hnone, fun _ => rfl⟩⟩
    · exact .inr ⟨fun hboth => hsome (hzero.2 hboth), herror⟩
  · exact .inl ⟨_, rfl, hnew, hzero⟩

theorem turn (hpos : NonNegative costs builtinCosts) : (∃ t', t.turn variant s = .ok t' ∧
      Overdrawn costs builtinCosts t' ∧ (t'.pending = 0 ↔ t.pending = 0 ∧
        ∀ d ∈ (debit variant costs builtinCosts s).toList, d = .step 0)) ∨
    (¬ (t.pending = 0 ∧ ∀ d ∈ (debit variant costs builtinCosts s).toList, d = .step 0) ∧
      ∃ e, t.turn variant s = .error e) := by
  rw [BudgetTracker.turn, h.costs, h.builtinCosts]
  cases hd : debit variant costs builtinCosts s with
  | none => exact .inl ⟨t, rfl, h, by simp⟩
  | some d =>
  have hcost : 0 ≤ d.cost := hpos.debit hd
  cases d with
  | step cost =>
    change 0 ≤ cost at hcost
    rcases h.collect_cases hcost with ⟨t', hok, ht', hzero⟩ | ⟨hne, herror⟩
    · exact .inl ⟨t', hok, ht', by simpa using hzero⟩
    · exact .inr ⟨by simpa using hne, herror⟩
  | builtin cost =>
    refine .inr ⟨by simp, ?_⟩
    unfold take charge
    rcases h.flush_cases with ⟨-, t', hok, ht', -⟩ | ⟨-, e, herror⟩
    · rw [hok]
      exact ⟨_, spend_eq ht'.restricting ht'.negative hcost⟩
    · rw [herror]
      exact ⟨e, rfl⟩

/-- With a start-up cost beyond the budget, a run returns exactly if there was nothing to take
off. -/
theorem run (hpos : NonNegative costs builtinCosts)
    (hfree : run (freeLoop denote variant) n s = some (.ok v)) :
    (∃ t', run (budgetLoop denote variant) n (s, t) = some (.ok (v, t'))) ↔
      t.pending = 0 ∧ ∀ d ∈ charges denote variant costs builtinCosts n s, d = .step 0 := by
  induction n generalizing s t with
  | zero => cases hfree
  | succ n ih =>
    rw [run_budget_succ]
    rcases run_free_succ costs builtinCosts hfree with ⟨s', hnext, hrest, hcharges⟩ | ⟨hlast, hcharges⟩
    · simp only [hcharges, List.forall_mem_append]
      rcases h.turn hpos with ⟨t', hturn, ht', hzero⟩ | ⟨hne, e, hturn⟩
      · rw [hturn, hnext]
        exact (ih ht' hrest).trans (by rw [hzero, and_assoc])
      · rw [hturn]
        exact iff_of_false (fun ⟨_, ht'⟩ => nomatch ht') fun hall => hne ⟨hall.1, hall.2.1⟩
    · rw [hcharges]
      rcases h.turn hpos with ⟨t', hturn, ht', hzero⟩ | ⟨hne, e, hturn⟩
      · rw [hturn, hlast, ← hzero]
        simp only [Sum.elim_inr, Except.bind]
        rcases ht'.flush_cases with ⟨hnone, t'', hflush, -⟩ | ⟨hsome, e, hflush⟩
        · exact iff_of_true ⟨t'', by rw [hflush]; rfl⟩ hnone
        · rw [hflush]
          exact iff_of_false (fun ⟨_, ht'⟩ => nomatch ht') hsome
      · rw [hturn]
        exact iff_of_false (fun ⟨_, ht'⟩ => nomatch ht') hne

end Overdrawn

end Runs

/-! ## The budget is exact -/

section Exact
variable (denote : Denotation) (variant : SemanticsVariant) (costs : MachineCosts)
  (builtinCosts : BuiltinCosts) (start : ExBudget) (term : Term)

/-- No charge exceeds the budget, from the start-up cost on. -/
def Covers : Prop :=
  ∀ n, costs.startup + total (charges denote variant costs builtinCosts n (initial term)) ≤ start

/-- A run within the budget returns what the run without one does, exactly if no charge exceeds the
budget, and then consumes the sum of the charges. -/
def BudgetExact : Prop :=
  (∀ v, (∃ t, EvaluatesWithBudget denote variant term
      (.withApplied start costs builtinCosts) (.ok (v, t))) ↔
    Evaluates denote variant term (.ok v) ∧ Covers denote variant costs builtinCosts start term) ∧
  ∀ v t, EvaluatesWithBudget denote variant term (.withApplied start costs builtinCosts) (.ok (v, t)) →
    t.consumed ≤ start ∧
    ∃ n, run (freeLoop denote variant) n (initial term) = some (.ok v) ∧ t.consumed =
      costs.startup + total (charges denote variant costs builtinCosts n (initial term))

/-- A run that is charged nothing after the start-up: every term it enters is free, and no builtin
runs. -/
def RunsFree : Prop :=
  ∃ n v, run (freeLoop denote variant) n (initial term) = some (.ok v) ∧
    ∀ d ∈ charges denote variant costs builtinCosts n (initial term), d = .step 0

variable {denote variant costs builtinCosts start term} {result : Except UplcError Value}
  {n m : Nat}

theorem tracks_withApplied (hpos : 0 ≤ costs.startup) (hstart : start ≤ maxBudget)
    (hfit : costs.startup ≤ start) :
    Tracks costs builtinCosts start costs.startup (.withApplied start costs builtinCosts) := by
  have hcpu := satSubI64_eq (hpos.1.trans hfit.1) hstart.1 hpos.1 (hfit.1.trans hstart.1)
  have hmem := satSubI64_eq (hpos.2.trans hfit.2) hstart.2 hpos.2 (hfit.2.trans hstart.2)
  refine ⟨rfl, rfl, rfl, rfl, ?_, ?_, ⟨?_, ?_⟩, ⟨le_rfl, le_rfl⟩, hpos⟩
  · change satSubI64 _ _ + _ = _ + 0
    omega
  · change satSubI64 _ _ + _ = _ + 0
    omega
  · change 0 ≤ satSubI64 _ _
    rw [hcpu]
    exact Int.sub_nonneg.2 hfit.1
  · change 0 ≤ satSubI64 _ _
    rw [hmem]
    exact Int.sub_nonneg.2 hfit.2

theorem overdrawn_withApplied (hfit : ¬ costs.startup ≤ start) :
    Overdrawn costs builtinCosts (.withApplied start costs builtinCosts) := by
  have hsub : ∀ {a b}, a < b → satSubI64 a b < 0 := by
    intro a b hlt
    rw [satSubI64]
    omega
  refine ⟨rfl, rfl, rfl, ?_, ⟨le_rfl, le_rfl⟩⟩
  rw [le_def, not_and_or, Int.not_le, Int.not_le] at hfit
  exact hfit.imp hsub hsub

/-- After the last turn nothing more is charged. -/
theorem charges_of_run {s : State}
    (h : run (freeLoop denote variant) n s = some result) (hle : n ≤ m) :
    charges denote variant costs builtinCosts m s = charges denote variant costs builtinCosts n s := by
  induction n generalizing s m with
  | zero => cases h
  | succ n ih =>
    obtain ⟨m, rfl⟩ : ∃ k, m = k + 1 := ⟨m - 1, by omega⟩
    rw [run] at h
    rw [charges, charges]
    cases hfree : freeLoop denote variant s with
    | inl s' =>
      rw [hfree] at h
      exact congrArg _ (ih h (le_of_succ_le_succ hle))
    | inr result => rfl

theorem total_charges_mono (hpos : NonNegative costs builtinCosts) (hle : n ≤ m)
    (s : State) : total (charges denote variant costs builtinCosts n s) ≤
      total (charges denote variant costs builtinCosts m s) := by
  induction n generalizing s m with
  | zero => exact hpos.total m s
  | succ n ih =>
    obtain ⟨m, rfl⟩ : ∃ k, m = k + 1 := ⟨m - 1, by omega⟩
    rw [charges, charges, total_append, total_append]
    cases freeLoop denote variant s with
    | inl s' =>
      grind
    | inr result => exact ⟨le_rfl, le_rfl⟩

/-- The budget covers a run that returns exactly if it covers all its charges. -/
theorem covers_iff (hpos : NonNegative costs builtinCosts) {n : Nat}
    (h : run (freeLoop denote variant) n (initial term) = some result) :
    Covers denote variant costs builtinCosts start term ↔
      costs.startup + total (charges denote variant costs builtinCosts n (initial term)) ≤ start := by
  refine ⟨fun hcovers => hcovers n, fun hfit m => ?_⟩
  rcases le_total n m with hle | hle
  · rwa [charges_of_run h hle]
  have hmono : total (charges denote variant costs builtinCosts m (initial term)) ≤
      total (charges denote variant costs builtinCosts n (initial term)) :=
    total_charges_mono hpos hle (initial term)
  grind

/-- The budget is exact unless the start-up cost alone exceeds it and the run is charged nothing
else. -/
theorem budget_exact_iff (hpos : NonNegative costs builtinCosts) (hstart : start ≤ maxBudget)
    (hsat : ∀ n v, run (freeLoop denote variant) n (initial term) = some (.ok v) →
      costs.startup + total (charges denote variant costs builtinCosts n (initial term)) ≤
        maxBudget) :
    BudgetExact denote variant costs builtinCosts start term ↔
      costs.startup ≤ start ∨ ¬ RunsFree denote variant costs builtinCosts term := by
  constructor
  · intro hexact
    by_contra hnot
    obtain ⟨hfit, hfree⟩ := not_or.1 hnot
    obtain ⟨n, v, hrun, hnothing⟩ := not_not.1 hfree
    obtain ⟨t, ht⟩ := ((overdrawn_withApplied hfit).run hpos hrun).2 ⟨rfl, hnothing⟩
    have hcovers := ((hexact.1 v).1 ⟨t, n, ht⟩).2 0
    rw [charges, show total [] = 0 from rfl, add_zero] at hcovers
    exact hfit hcovers
  · intro hcond
    by_cases hfit : costs.startup ≤ start
    · have htracks : Tracks costs builtinCosts start costs.startup
          (.withApplied start costs builtinCosts) := tracks_withApplied hpos.startup hstart hfit
      refine ⟨fun v => ⟨?_, ?_⟩, ?_⟩
      · rintro ⟨t, n, hn⟩
        have hfree := free_of_budget hn
        rcases htracks.run hstart hpos hfree (hsat n v hfree) with ⟨hle, -⟩ | ⟨-, hnone⟩
        · exact ⟨⟨n, hfree⟩, (covers_iff hpos hfree).2 hle⟩
        · exact absurd hn (hnone _)
      · rintro ⟨⟨n, hfree⟩, hcovers⟩
        rcases htracks.run hstart hpos hfree (hsat n v hfree) with ⟨-, t, ht, -⟩ | ⟨hle, -⟩
        · exact ⟨t, n, ht⟩
        · exact absurd (hcovers n) hle
      · rintro v t ⟨n, hn⟩
        have hfree := free_of_budget hn
        rcases htracks.run hstart hpos hfree (hsat n v hfree) with ⟨hle, t', ht', heq⟩ | ⟨-, hnone⟩
        · cases ht'.symm.trans hn
          exact ⟨heq ▸ hle, n, hfree, heq⟩
        · exact absurd hn (hnone _)
    · have hfree := hcond.resolve_left hfit
      -- whatever returns has noticed nothing
      have hnone : ∀ v t, ¬ EvaluatesWithBudget denote variant term
          (.withApplied start costs builtinCosts) (.ok (v, t)) := by
        rintro v t ⟨n, hn⟩
        have hrun := free_of_budget hn
        have hnothing := ((overdrawn_withApplied hfit).run hpos hrun).1 ⟨t, hn⟩
        exact hfree ⟨n, v, hrun, hnothing.2⟩
      refine ⟨fun v => iff_of_false ?_ ?_, fun v t ht => absurd ht (hnone v t)⟩
      · rintro ⟨t, ht⟩
        exact hnone v t ht
      · rintro ⟨-, hcovers⟩
        have hzero := hcovers 0
        rw [charges, show total [] = 0 from rfl, add_zero] at hzero
        exact hfit hzero

/-- A budget that covers the run. -/
theorem doubleThree_budget_exact :
    BudgetExact addition .latest .default (fun _ _ _ => ⟨5, 1⟩) ⟨1000000, 10000⟩ doubleThree ∧
      ∃ t, EvaluatesWithBudget addition .latest doubleThree
        (.withApplied ⟨1000000, 10000⟩ .default fun _ _ _ => ⟨5, 1⟩)
        (.ok (.const (.integer 6), t)) := by
  refine ⟨?_, _, 20, rfl⟩
  have hpos : NonNegative .default fun _ _ _ => ⟨5, 1⟩ := by
    refine ⟨by decide, fun term => ?_, fun _ _ _ => by decide⟩
    cases term <;> constructor <;> simp [MachineCosts.costFor, MachineCosts.default]
  refine (budget_exact_iff hpos (by decide) fun n v hn => ?_).2 (.inl (by decide))
  have hend : run (freeLoop addition .latest) 20 (initial doubleThree) =
      some (.ok (.const (.integer 6))) := rfl
  rcases le_total n 20 with hle | hle
  · rw [← charges_of_run hn hle]
    decide
  · rw [charges_of_run hend hle]
    decide

/-- A model in which entering a term is free. -/
def freeSteps : MachineCosts where
  startup := ⟨1, 1⟩
  var := 0
  constant := 0
  lam := 0
  delay := 0
  force := 0
  apply := 0
  builtin := 0
  constr := 0
  case := 0

/-- Without any budget, a script that costs nothing but the start-up returns and has consumed
more than it had. -/
theorem startup_unnoticed : ∃ t, EvaluatesWithBudget addition .latest (.const .unit)
    (.withApplied 0 freeSteps fun _ _ _ => 0) (.ok (.const .unit, t)) ∧ t.consumed = ⟨1, 1⟩ :=
  ⟨_, ⟨2, rfl⟩, by decide⟩

end Exact

end Uplc

end Dugite
