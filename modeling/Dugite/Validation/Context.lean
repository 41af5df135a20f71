import Dugite.Primitives.Transaction

/-!
# What transaction validation reads and returns

The protocol parameters and the ledger context that the modelled rules read, and the errors they
push. A context field that is `none` switches the rules that need it off; block application and the
mempool pass all of them. Fields that only other rules read are left out.
-/

namespace Dugite

/-- The read access of the checks to the UTxO set. -/
abbrev UtxoLookup := TransactionInput → Option TransactionOutput

/-- The protocol parameters that the modelled rules read or write; the defaults are those of the
source. -/
structure ProtocolParameters where
  (protocolVersionMajor protocolVersionMinor keyDeposit poolDeposit drepDeposit govActionDeposit
    collateralPercentage : Nat)
  maxTxExUnits : ExUnits
  drepActivity : Nat := 20
  govActionLifetime : Nat := 6
  nOpt : Nat := 500
  a0 : Rational := ⟨3, 10⟩
  rho : Rational := ⟨3, 1000⟩
  tau : Rational := ⟨2, 10⟩
  activeSlotCoeff : Rational := ⟨1, 20⟩
  minFeeA : Nat := 44
  minFeeB : Nat := 155381
  maxBlockBodySize : Nat := 90112
  maxTxSize : Nat := 16384
  maxBlockHeaderSize : Nat := 1100
  eMax : Nat := 18
  minPoolCost : Nat := 170000000
  adaPerUtxoByte : Nat := 4310
  minUtxoValue : Nat := 1000000
  coinsPerUtxoWord : Nat := 34482
  costModels : CostModels := {}
  executionCosts : ExUnitPrices := ⟨⟨577, 10000⟩, ⟨721, 10000000⟩⟩
  maxBlockExUnits : ExUnits := ⟨62000000, 40000000000⟩
  maxValSize : Nat := 5000
  maxCollateralInputs : Nat := 3
  minFeeRefScriptCostPerByte : Rational := ⟨15, 1⟩
  committeeMinSize : Nat := 7
  committeeMaxTermLength : Nat := 146
  dvtPpNetworkGroup : Rational := ⟨67, 100⟩
  dvtPpEconomicGroup : Rational := ⟨67, 100⟩
  dvtPpTechnicalGroup : Rational := ⟨67, 100⟩
  dvtPpGovGroup : Rational := ⟨67, 100⟩
  dvtHardFork : Rational := ⟨60, 100⟩
  dvtNoConfidence : Rational := ⟨67, 100⟩
  dvtCommitteeNormal : Rational := ⟨67, 100⟩
  dvtCommitteeNoConfidence : Rational := ⟨60, 100⟩
  dvtConstitution : Rational := ⟨75, 100⟩
  dvtTreasuryWithdrawal : Rational := ⟨67, 100⟩
  pvtMotionNoConfidence : Rational := ⟨51, 100⟩
  pvtCommitteeNormal : Rational := ⟨51, 100⟩
  pvtCommitteeNoConfidence : Rational := ⟨51, 100⟩
  pvtHardFork : Rational := ⟨51, 100⟩
  pvtPpSecurityGroup : Rational := ⟨51, 100⟩
  d : Rational := ⟨0, 1⟩
  deriving DecidableEq

/-- The last enacted action of each purpose that has a lineage. -/
structure EnactedGovRoots where
  pparamUpdate : Option GovActionId := none
  hardFork : Option GovActionId := none
  committee : Option GovActionId := none
  constitution : Option GovActionId := none
  deriving DecidableEq

/-- The root of an action's purpose; `NoConfidence` shares the root of the committee. -/
def EnactedGovRoots.rootFor (roots : EnactedGovRoots) : GovAction → Option GovActionId
  | .parameterChange _ _ _ => roots.pparamUpdate
  | .hardForkInitiation _ _ => roots.hardFork
  | .noConfidence _ => roots.committee
  | .updateCommittee _ _ _ _ => roots.committee
  | .newConstitution _ _ => roots.constitution
  | .treasuryWithdrawals _ _ => none
  | .infoAction => none

structure ValidationContext where
  registeredPools : Option (Finset Hash28) := none
  rewardAccounts : Option (FinMap Hash32 Nat) := none
  registeredDreps : Option (Finset Hash32) := none
  drepDeposits : Option (FinMap Hash32 Nat) := none
  nodeNetwork : Option NetworkId := none
  stakeKeyDeposits : Option (FinMap Hash32 Nat) := none
  /-- The actions of the proposals that are open. -/
  activeProposals : Option (FinMap GovActionId GovAction) := none
  enactedGovRoots : Option EnactedGovRoots := none

/-- The errors of the modelled rules, with their payload. -/
inductive ValidationError where
  | noInputs
  | duplicateInput (input : String)
  | inputNotFound (input : String)
  | proposalDepositIncorrect (declared expected : Nat)
  | valueNotConserved (inputs outputs fee : Nat)
  | stakeRegistrationDepositMismatch (declared expected : Nat)
  | stakeDeregistrationRefundMismatch (declared expected : Nat)
  | missingInputWitness (keyHash : String)
  | missingScriptWitness (scriptHash : String)
  | missingWithdrawalWitness (keyHash : String)
  | missingWithdrawalScriptWitness (scriptHash : String)
  | missingCertificateWitness (keyHash : String)
  | missingCertificateScriptWitness (scriptHash : String)
  | missingRequiredSigner (signer : String)
  | nativeScriptFailed
  | invalidWitnessSignature (reason : String)
  | stakeKeyHasNonZeroBalance (credentialHash : String) (balance : Nat)
  | stakeKeyNotRegisteredForDeregistration (credentialHash : String)
  | stakeKeyAlreadyRegistered (credentialHash : String)
  | dRepAlreadyRegistered (credentialHash : String)
  | dRepNotRegistered (credentialHash : String)
  | dRepIncorrectDeposit (declared expected : Nat)
  | dRepIncorrectRefund (credentialHash : String) (declared expected : Nat)
  | withdrawalsNotInRewardsCERTS (bad : List (String × Nat))
  | conwayWithdrawalsMissingAccounts (missing : List (String × Nat))
  | conwayIncompleteWithdrawals (incomplete : List (String × Nat × Nat))
  | proposalCantFollow (actionIndex : BitVec 32) (prevActionId : Option GovActionId)
      (targetMajor targetMinor baseMajor baseMinor : Nat)
  | invalidPrevGovActionId (actionIndex : BitVec 32) (actionType : String)
      (prevActionId : Option GovActionId)
  | insufficientCollateral (balance : Int) (required : Nat)
  | collateralNotFound (input : String)
  | scriptLockedCollateral (inputs : List String)
  | collateralMismatch (declared computed : Nat)
  | missingSpendRedeemer (index : BitVec 32)
  | missingRedeemer (tag : String) (index : BitVec 32) (scriptHash : String)
  | extraRedeemer (tag : String) (index : BitVec 32)
  | missingSlotConfig
  | phase2CollectError (reason : String)
  | phase2EvalPanic (reason : String)
  | scriptFailed (reason : String)
  | isValidTagMismatch (declared evaluated : Bool)
  /-- A rule that is not modelled. -/
  | otherRule (reason : String)
  deriving DecidableEq

end Dugite
