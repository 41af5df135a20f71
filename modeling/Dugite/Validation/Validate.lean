import Dugite.Plutus.PhaseTwo
import Dugite.Validation.Accounting
import Dugite.Validation.RedeemerAgreement

/-!
# Transaction validation

`validate_transaction_with_context`: the rules of phase 1, the Plutus rules and the phase-2 run
behind `has_plutus_scripts`, and the rules that need the whole ledger context. Rules push their
errors on one list; a transaction is accepted when the list stays empty. The rules that are not
modelled are functions of the transaction and the UTxO set, at their places in the sequence
(`RemainingRules`). `Passed` collects what the modelled rules have checked of an accepted transaction.
-/

namespace Dugite

open List

/-- The errors of one rule. -/
abbrev Rule := Transaction → UtxoLookup → List ValidationError

/-- The rules that are not modelled, in their order. -/
structure RemainingRules where
  /-- Rules 1c to 1e: auxiliary data, era gating, retirement epochs. -/
  metadataAndEra : Rule
  /-- Rules 1h and 1i: parameters of registered pools. -/
  poolParameters : Rule
  /-- Rules 3b to 9: tokens, fees, sizes, networks, outputs, reference inputs. -/
  feesAndOutputs : Rule
  /-- Rule 9c. -/
  datumWitnesses : Rule
  /-- Rule 14, for Byron. -/
  bootstrapWitnesses : Rule
  /-- Delegations: to registered pools and DReps, by registered credentials. -/
  delegations : Rule
  /-- VRF keys of pools and hot keys of the committee. -/
  vrfAndCommittee : Rule
  /-- From the DRep delegation of withdrawals to the number of collateral inputs. -/
  integrity : Rule
  collateralTokens : Rule
  /-- Execution units and the bounds of redeemer indices. -/
  executionUnits : Rule
  /-- Well-formed witness scripts, and reference inputs disjoint from the inputs. -/
  scriptWitnesses : Rule
  costModels : Rule
  /-- Votes, and the restrictions of the bootstrap phase. -/
  votes : Rule
  /-- Return accounts, treasury withdrawals, committee updates, and the rules before Conway. -/
  proposals : Rule

/-- No other rule objects. -/
def RemainingRules.silent : RemainingRules where
  metadataAndEra _ _ := []
  poolParameters _ _ := []
  feesAndOutputs _ _ := []
  datumWitnesses _ _ := []
  bootstrapWitnesses _ _ := []
  delegations _ _ := []
  vrfAndCommittee _ _ := []
  integrity _ _ := []
  collateralTokens _ _ := []
  executionUnits _ _ := []
  scriptWitnesses _ _ := []
  costModels _ _ := []
  votes _ _ := []
  proposals _ _ := []

structure SlotConfig where
  (zeroTime zeroSlot slotLength : Nat)
  safeZoneHorizonSlot : Option Nat := none

/-- What validation depends on beside the transaction and the ledger state. -/
structure Validator where
  crypto : Crypto
  T : PlutusTranslation
  machine : SlotConfig → Machine
  other : RemainingRules
  params : ProtocolParameters
  slotConfig : Option SlotConfig

section Validate
variable (v : Validator) (ctx : ValidationContext) (tx : Transaction) (utxo : UtxoLookup)

/-! ## Phase 1 -/

/-- No error says that an input could not be found. -/
def inputsResolved (errors : List ValidationError) : Bool :=
  errors.all fun
    | .noInputs => false
    | .inputNotFound _ => false
    | _ => true

/-- The rules before the value conservation. -/
def structuralRules : List ValidationError :=
  noInputsRule tx ++ duplicateInputRule v.params tx ++ v.other.metadataAndEra tx utxo ++
    registrationDepositRule v.params tx ++ deregistrationRefundRule v.params ctx tx ++
    v.other.poolParameters tx utxo ++ inputNotFoundRule v.params tx utxo ++
    proposalDepositRule v.params tx

def runPhase1Rules : List ValidationError :=
  let errors := structuralRules v ctx tx utxo
  let errors := errors ++ if inputsResolved errors then
    valueConservationRule v.params ctx tx utxo else []
  let errors := errors ++ v.other.feesAndOutputs tx utxo
  let errors := errors ++ if inputsResolved errors then
    witnessCompleteness v.crypto v.T tx utxo else []
  let errors := errors ++ if errors.isEmpty then v.other.datumWitnesses tx utxo else []
  errors ++ requiredSignerRule v.crypto tx ++ nativeScriptRule v.crypto v.T tx utxo ++
    verifyWitnessSignatures v.crypto tx ++ v.other.bootstrapWitnesses tx utxo

/-! ## The Plutus rules -/

/-- `ceil(fee * percentage / 100)`, as a `u64`. -/
def requiredCollateral : Nat := min ((tx.body.fee * v.params.collateralPercentage + 99) / 100) u64Max

/-- The coins of the collateral that is found. -/
def collateralValue : Nat :=
  (tx.body.collateral.filterMap utxo).foldl (fun sum out => satAdd sum out.value.coin) 0

/-- The collateral after its return; an excessive return makes it negative. -/
def effectiveCollateral : Int :=
  (collateralValue tx utxo : Int) - ((tx.body.collateralReturn.map (·.value.coin)).getD 0 : Nat)

/-- Rule 11. A script may not lock collateral. -/
def checkCollateral : List ValidationError :=
  if tx.body.collateral.isEmpty then
    [.insufficientCollateral 0 (requiredCollateral v tx)] ++ v.other.executionUnits tx utxo
  else
    let locked := tx.body.collateral.filter fun input => (inputScript utxo input).isSome
    tx.body.collateral.filterMap (fun input =>
      if (utxo input).isSome then none else some (.collateralNotFound input.display)) ++
    (if locked.isEmpty then [] else [.scriptLockedCollateral (locked.map (·.display))]) ++
    v.other.collateralTokens tx utxo ++
    (match tx.body.totalCollateral with
      | some total => if (total : Int) ≠ effectiveCollateral tx utxo then
          [.collateralMismatch total (effectiveCollateral tx utxo).toNat] else []
      | none => []) ++
    (if 100 * effectiveCollateral tx utxo < (v.params.collateralPercentage * tx.body.fee : Nat) then
      [.insufficientCollateral (effectiveCollateral tx utxo) (requiredCollateral v tx)] else []) ++
    v.other.executionUnits tx utxo

/-- The phase-2 run, which needs the slot configuration. -/
def phase2 : List ValidationError :=
  match v.slotConfig with
  | none => [.missingSlotConfig]
  | some slotConfig => (phase2AdmissionError tx.isValid (evaluatePlutusScripts v.crypto v.T
      (v.machine slotConfig) v.params.maxTxExUnits tx utxo)).toList

/-- The rules of a transaction with Plutus witnesses, after the errors found so far. Scripts run
only when there are redeemers and nothing else is wrong. -/
def plutusRules (errors : List ValidationError) : List ValidationError :=
  let scriptVersions := plutusScriptVersionMap v.crypto tx utxo
  let errors := errors ++ checkCollateral v tx utxo ++
    checkScriptRedeemers v.crypto tx utxo scriptVersions ++
    checkExtraRedeemers v.crypto tx utxo scriptVersions ++ v.other.scriptWitnesses tx utxo
  if errors.isEmpty && !tx.witnessSet.redeemers.isEmpty then
    let errors := v.other.costModels tx utxo
    if errors.isEmpty then phase2 v tx utxo
    else errors ++ if v.slotConfig.isNone then [.missingSlotConfig] else []
  else errors

def validateTransactionWithPools : List ValidationError :=
  let errors := runPhase1Rules v ctx tx utxo ++ nonZeroBalanceRule ctx tx ++
    stakeRegistrationRule ctx tx ++ v.other.delegations tx utxo ++ drepRule v.params ctx tx ++
    v.other.vrfAndCommittee tx utxo ++ withdrawalRule v.params ctx tx ++ v.other.integrity tx utxo
  if hasPlutusScripts tx then plutusRules v tx utxo errors else errors

/-! ## The whole -/

def validateTransactionWithContext : Except (List ValidationError) Unit :=
  let errors := validateTransactionWithPools v ctx tx utxo ++ v.other.votes tx utxo ++
    proposalCantFollowRule v.params ctx tx ++ invalidPrevRule v.params ctx tx ++
    v.other.proposals tx utxo ++ drepRefundRule ctx tx
  if errors.isEmpty then .ok () else .error errors

/-- What has been checked of an accepted transaction with Plutus witnesses. -/
structure PlutusPassed : Prop where
  collateral : checkCollateral v tx utxo = []
  redeemers : PassesRedeemerChecks v.crypto tx utxo
  phase2 : tx.witnessSet.redeemers ≠ [] → phase2 v tx utxo = []

/-- What the modelled rules have checked of an accepted transaction. -/
structure Passed : Prop where
  hasInputs : noInputsRule tx = []
  duplicateInputs : duplicateInputRule v.params tx = []
  registrationDeposits : registrationDepositRule v.params tx = []
  refunds : deregistrationRefundRule v.params ctx tx = []
  inputsFound : inputNotFoundRule v.params tx utxo = []
  proposalDeposits : proposalDepositRule v.params tx = []
  conserved : valueConservationRule v.params ctx tx utxo = []
  witnesses : witnessCompleteness v.crypto v.T tx utxo = []
  requiredSigners : requiredSignerRule v.crypto tx = []
  nativeScripts : nativeScriptRule v.crypto v.T tx utxo = []
  signatures : verifyWitnessSignatures v.crypto tx = []
  balances : nonZeroBalanceRule ctx tx = []
  registrations : stakeRegistrationRule ctx tx = []
  dreps : drepRule v.params ctx tx = []
  withdrawals : withdrawalRule v.params ctx tx = []
  plutus : hasPlutusScripts tx = true → PlutusPassed v tx utxo
  hardForks : proposalCantFollowRule v.params ctx tx = []
  prevActions : invalidPrevRule v.params ctx tx = []
  drepRefunds : drepRefundRule ctx tx = []

end Validate

section Passing
variable {v : Validator} {ctx : ValidationContext} {tx : Transaction} {utxo : UtxoLookup}

theorem plutusRules_eq_nil {errors : List ValidationError}
    (h : plutusRules v tx utxo errors = []) : errors = [] ∧ PlutusPassed v tx utxo := by
  unfold plutusRules at h
  dsimp only at h
  split at h
  · next hgate =>
    simp only [Bool.and_eq_true, List.isEmpty_iff, Bool.not_eq_true', List.isEmpty_eq_false_iff,
      append_eq_nil_iff] at hgate
    obtain ⟨⟨⟨⟨⟨herrors, hcollateral⟩, hscript⟩, hextra⟩, -⟩, -⟩ := hgate
    refine ⟨herrors, hcollateral, ⟨hscript, hextra⟩, fun _ => ?_⟩
    split at h
    · exact h
    · next hne =>
      rw [append_eq_nil_iff] at h
      exact absurd (isEmpty_iff.2 h.1) hne
  · next hgate =>
    have hparts := h
    simp only [append_eq_nil_iff] at hparts
    obtain ⟨⟨⟨⟨herrors, hcollateral⟩, hscript⟩, hextra⟩, -⟩ := hparts
    refine ⟨herrors, hcollateral, ⟨hscript, hextra⟩, fun hne => absurd ?_ hgate⟩
    rw [h]
    simpa using hne

theorem runPhase1Rules_eq_nil (h : runPhase1Rules v ctx tx utxo = []) :
    structuralRules v ctx tx utxo = [] ∧ valueConservationRule v.params ctx tx utxo = [] ∧
      witnessCompleteness v.crypto v.T tx utxo = [] ∧ requiredSignerRule v.crypto tx = [] ∧
      nativeScriptRule v.crypto v.T tx utxo = [] ∧ verifyWitnessSignatures v.crypto tx = [] := by
  unfold runPhase1Rules at h
  simp only [append_eq_nil_iff] at h
  obtain ⟨⟨⟨⟨⟨⟨⟨⟨hstructural, hvalue⟩, hother⟩, hwitness⟩, -⟩, hsigners⟩, hnative⟩, hverify⟩, -⟩ := h
  refine ⟨hstructural, ?_, ?_, hsigners, hnative, hverify⟩
  · rw [hstructural] at hvalue
    exact hvalue
  · rw [hstructural, hother] at hwitness
    rw [hstructural] at hvalue
    rw [show inputsResolved [] = true from rfl] at hvalue hwitness
    rw [if_pos rfl] at hvalue
    simp only [if_true, hvalue, append_nil, show inputsResolved [] = true from rfl] at hwitness
    exact hwitness

theorem passed_of_accepted (h : validateTransactionWithContext v ctx tx utxo = .ok ()) :
    Passed v ctx tx utxo := by
  have herrors : validateTransactionWithPools v ctx tx utxo ++ v.other.votes tx utxo ++
      proposalCantFollowRule v.params ctx tx ++ invalidPrevRule v.params ctx tx ++
      v.other.proposals tx utxo ++ drepRefundRule ctx tx = [] := by
    unfold validateTransactionWithContext at h
    dsimp only at h
    split at h
    · next hempty => exact isEmpty_iff.1 hempty
    · cases h
  simp only [append_eq_nil_iff] at herrors
  obtain ⟨⟨⟨⟨⟨hpools, -⟩, hfollow⟩, hprev⟩, -⟩, hrefund⟩ := herrors
  have hrules : (runPhase1Rules v ctx tx utxo ++ nonZeroBalanceRule ctx tx ++
      stakeRegistrationRule ctx tx ++ v.other.delegations tx utxo ++ drepRule v.params ctx tx ++
      v.other.vrfAndCommittee tx utxo ++ withdrawalRule v.params ctx tx ++
      v.other.integrity tx utxo = []) ∧ (hasPlutusScripts tx = true → PlutusPassed v tx utxo) := by
    unfold validateTransactionWithPools at hpools
    split at hpools
    · next => exact ⟨(plutusRules_eq_nil hpools).1, fun _ => (plutusRules_eq_nil hpools).2⟩
    · next hno => exact ⟨hpools, fun hyes => absurd hyes hno⟩
  obtain ⟨hrules, hplutus⟩ := hrules
  simp only [append_eq_nil_iff] at hrules
  obtain ⟨⟨⟨⟨⟨⟨⟨hphase1, hbalance⟩, hregister⟩, -⟩, hdreps⟩, -⟩, hwithdraw⟩, -⟩ := hrules
  obtain ⟨hstructural, hvalue, hwitness, hsigners, hnative, hverify⟩ := runPhase1Rules_eq_nil hphase1
  simp only [structuralRules, append_eq_nil_iff] at hstructural
  obtain ⟨⟨⟨⟨⟨⟨⟨hno, hdup⟩, -⟩, hdeposit⟩, hderefund⟩, -⟩, hfound⟩, hproposal⟩ := hstructural
  exact ⟨hno, hdup, hdeposit, hderefund, hfound, hproposal, hvalue, hwitness, hsigners, hnative,
    hverify, hbalance, hregister, hdreps, hwithdraw, hplutus, hfollow, hprev, hrefund⟩

end Passing

end Dugite
