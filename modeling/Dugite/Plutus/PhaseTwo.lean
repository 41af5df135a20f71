import Dugite.Plutus.Resolve

/-!
# Phase 2: running the redeemers

`eval_phase_two_raw` resolves all redeemers, then runs them one after the other, each with the
budget it declares. The machine that runs a script on its context is a parameter: it may succeed
with the budget it consumed, fail, or panic. `phase2_admission_error` compares the outcome with the
`is_valid` tag of the transaction.
-/

namespace Dugite

open Checks

/-- The error as the ledger prints it. -/
def PhaseTwoError.text : PhaseTwoError → String
  | .notImplemented =>
    "phase-2 evaluator not yet fully implemented (see crates/dugite-uplc/src/phase_two.rs)"
  | .txDecode reason => "tx decode failed: " ++ reason
  | .utxoDecode reason => "utxo decode failed: " ++ reason
  | .costModelDecode reason => "cost model decode failed: " ++ reason
  | .missingScript h => "script not found for redeemer purpose: " ++ h
  | .missingDatum hash => "datum not found for V1/V2 spending redeemer: " ++ hash
  | .scriptEvaluationFailed error => "script evaluation failed: " ++ error
  | .scriptEvaluationFailedWithLogs error logs =>
    error ++ "; Trace logs: " ++ ", ".intercalate (logs.map fun log => "[" ++ log ++ "]")
  | .internal reason => "internal phase-2 error: " ++ reason
  | .timeTranslationPastHorizon slot horizon =>
    "time translation past horizon: slot=" ++ toString slot ++ " horizon=" ++ toString horizon

/-- Only a script that ran and failed is a failure of the script; everything else rejects the
transaction whatever its tag says. -/
def PhaseTwoError.isScriptEvaluationFailure : PhaseTwoError → Bool
  | .scriptEvaluationFailed _ => true
  | .scriptEvaluationFailedWithLogs _ _ => true
  | _ => false

/-- How a run can fail. A panic is caught around the whole evaluation. -/
inductive EvalError where
  | phaseTwo (error : PhaseTwoError)
  | panic (message : String)
  deriving DecidableEq

structure ExBudget where
  cpu : Int
  mem : Int
  deriving DecidableEq

/-- `eval_resolved_redeemer`: the context of a script is built from the transaction and the resolved
outputs, and the script is run on it; returns the budget consumed. -/
abbrev Machine := Transaction → List (TransactionInput × TransactionOutput) → ResolvedRedeemer →
  ExBudget → Except EvalError ExBudget

def i64Max : Int := 2 ^ 63 - 1

/-- `i64::try_from(n).unwrap_or(i64::MAX)`. -/
def clampI64 (n : Nat) : Int := min n i64Max

/-- `n as i64`, for a `u64`. -/
def asI64 (n : Nat) : Int := (BitVec.ofNat 64 n).toInt

/-- `i64::saturating_sub`. -/
def satSubI64 (a b : Int) : Int := max (-(2 ^ 63)) (min (a - b) i64Max)

section Evaluate
variable (crypto : Crypto) (T : PlutusTranslation) (machine : Machine) (maxTxExUnits : ExUnits)
  (tx : Transaction) (utxo : UtxoLookup)

/-- What a redeemer may consume: its declared units, at most those of a transaction. -/
def redeemerBudget (r : ResolvedRedeemer) : ExBudget where
  cpu := min (clampI64 r.declaredExUnits.2) (asI64 maxTxExUnits.steps)
  mem := min (clampI64 r.declaredExUnits.1) (asI64 maxTxExUnits.mem)

/-- Run one resolved redeemer. -/
def evalRedeemer (r : ResolvedRedeemer) : Except EvalError ExBudget := do
  let declaredMem := clampI64 r.declaredExUnits.1
  let declaredCpu := clampI64 r.declaredExUnits.2
  let consumed ← machine tx (resolvePhase2UtxoPairs tx utxo) r (redeemerBudget maxTxExUnits r)
  rejectIf (declaredCpu < consumed.cpu || declaredMem < consumed.mem)
    (.phaseTwo (.scriptEvaluationFailed ("budget exhausted: cpu_remaining=" ++
      toString (satSubI64 declaredCpu consumed.cpu) ++ ", mem_remaining=" ++
      toString (satSubI64 declaredMem consumed.mem))))
  return consumed

def resolveRedeemers : Except PhaseTwoError (List ResolvedRedeemer) :=
  tx.witnessSet.redeemers.mapM (resolveRedeemer crypto T tx (resolvePhase2UtxoPairs tx utxo))

def evalPhaseTwoRaw : Except EvalError (List ExBudget) := do
  let resolved ← (resolveRedeemers crypto T tx utxo).mapError EvalError.phaseTwo
  resolved.mapM (evalRedeemer machine maxTxExUnits tx utxo)

inductive PlutusError where
  | evalFailed (reason : String)
  | collectError (reason : String)
  | evalPanic (reason : String)
  deriving DecidableEq

/-- The error's display text. -/
def PlutusError.text : PlutusError → String
  | .evalFailed reason => "Plutus evaluation failed: " ++ reason
  | .collectError reason => "Phase-2 collection error (UtxosFailure CollectErrors): " ++ reason
  | .evalPanic reason => "Phase-2 evaluator panic: " ++ reason

def evaluatePlutusScripts : Except PlutusError Unit :=
  match evalPhaseTwoRaw crypto T machine maxTxExUnits tx utxo with
  | .ok _ => .ok ()
  | .error (.panic message) =>
    .error (.evalPanic ("dugite-uplc panic on malformed script: " ++ message))
  | .error (.phaseTwo e) =>
    let reason := "eval_phase_two_raw error: " ++ e.text
    if e.isScriptEvaluationFailure then .error (.evalFailed reason) else .error (.collectError reason)

end Evaluate

/-- Whether the outcome fits the tag: a failed script only fits `is_valid = false`, a pass only
`is_valid = true`, and any other error fits neither. -/
def phase2AdmissionError (isValid : Bool) (result : Except PlutusError Unit) :
    Option ValidationError :=
  match result with
  | .error (.collectError reason) => some (.phase2CollectError (PlutusError.collectError reason).text)
  | .error (.evalPanic reason) => some (.phase2EvalPanic (PlutusError.evalPanic reason).text)
  | .error (.evalFailed reason) =>
    if isValid then some (.scriptFailed (PlutusError.evalFailed reason).text) else none
  | .ok () => if isValid then none else some (.isValidTagMismatch false true)

/-! ## What an admitted valid transaction has run -/

section Admitted
variable {crypto : Crypto} {T : PlutusTranslation} {machine : Machine} {maxTxExUnits : ExUnits}
  {tx : Transaction} {utxo : UtxoLookup}

theorem phase2AdmissionError_valid {result : Except PlutusError Unit}
    (h : phase2AdmissionError true result = none) : result = .ok () := by
  cases result with
  | ok => rfl
  | error e => cases e <;> cases h

/-- A redeemer resolved and its script ran to success. -/
def Ran (crypto : Crypto) (T : PlutusTranslation) (machine : Machine) (maxTxExUnits : ExUnits)
    (tx : Transaction) (utxo : UtxoLookup) (r : Redeemer) (h : Hash28) : Prop :=
  ∃ res consumed, resolveRedeemer crypto T tx (resolvePhase2UtxoPairs tx utxo) r = .ok res ∧
    res.scriptHash = h ∧ evalRedeemer machine maxTxExUnits tx utxo res = .ok consumed

theorem ran_of_evaluatePlutusScripts
    (h : evaluatePlutusScripts crypto T machine maxTxExUnits tx utxo = .ok ()) {r : Redeemer}
    (hr : r ∈ tx.witnessSet.redeemers) :
    ∃ hash, Ran crypto T machine maxTxExUnits tx utxo r hash := by
  have hraw : ∃ out, evalPhaseTwoRaw crypto T machine maxTxExUnits tx utxo = .ok out := by
    unfold evaluatePlutusScripts at h
    split at h
    · next out hout => exact ⟨out, hout⟩
    · cases h
    · split at h
      · cases h
      · cases h
  obtain ⟨out, hout⟩ := hraw
  obtain ⟨resolved, hresolved, hrun⟩ := bind_eq_ok.1 hout
  have hresolve : resolveRedeemers crypto T tx utxo = .ok resolved := by
    cases hcases : resolveRedeemers crypto T tx utxo with
    | error e =>
      rw [hcases] at hresolved
      cases hresolved
    | ok resolved' =>
      rw [hcases] at hresolved
      cases hresolved
      rfl
  obtain ⟨res, hres, hresolves⟩ := exists_ok_of_mapM hresolve hr
  obtain ⟨consumed, -, hconsumed⟩ := exists_ok_of_mapM hrun hres
  exact ⟨res.scriptHash, res, consumed, hresolves, rfl, hconsumed⟩

end Admitted

end Dugite
