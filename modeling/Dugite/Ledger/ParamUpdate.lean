import Dugite.Ledger.Utxo
import Dugite.Validation.Context

/-!
# Changes of protocol parameters

`apply_protocol_param_update_impl` checks every fraction of a change before it writes the first
field, so a change is applied whole or not at all. `modifiedPpGroups` says which groups of
parameters a change touches, for the votes.
-/

namespace Dugite

open Checks

namespace Rational

def isZero (r : Rational) : Bool := r.numerator == 0

/-- `Rational::is_met_by`: a value is at least this fraction. -/
def isMetBy (r : Rational) (valueNum valueDen : Nat) : Bool :=
  if r.denominator = 0 ∨ valueDen = 0 then false
  else decide (r.numerator * valueDen ≤ valueNum * r.denominator)

end Rational

/-- A fraction between zero and one. -/
def validateThreshold (name : String) (r : Rational) : Except LedgerError Unit := do
  rejectIf (r.denominator == 0) (.invalidProtocolParam (name ++ ": zero denominator"))
  rejectIf (decide (r.denominator < r.numerator)) (.invalidProtocolParam
    (name ++ ": threshold " ++ toString r.numerator ++ "/" ++ toString r.denominator ++
      " exceeds 1"))

namespace ProtocolParamUpdate

variable (update : ProtocolParamUpdate)

/-- The fractions that are checked, in the order of the checks. -/
def thresholds : List (String × Option Rational) :=
  [("rho", update.rho), ("tau", update.tau), ("d", update.d),
   ("dvt_pp_network_group", update.dvtPpNetworkGroup),
   ("dvt_pp_economic_group", update.dvtPpEconomicGroup),
   ("dvt_pp_technical_group", update.dvtPpTechnicalGroup),
   ("dvt_pp_gov_group", update.dvtPpGovGroup),
   ("dvt_hard_fork", update.dvtHardFork),
   ("dvt_no_confidence", update.dvtNoConfidence),
   ("dvt_committee_normal", update.dvtCommitteeNormal),
   ("dvt_committee_no_confidence", update.dvtCommitteeNoConfidence),
   ("dvt_constitution", update.dvtConstitution),
   ("dvt_treasury_withdrawal", update.dvtTreasuryWithdrawal),
   ("pvt_motion_no_confidence", update.pvtMotionNoConfidence),
   ("pvt_committee_normal", update.pvtCommitteeNormal),
   ("pvt_committee_no_confidence", update.pvtCommitteeNoConfidence),
   ("pvt_hard_fork", update.pvtHardFork),
   ("pvt_pp_security_group", update.pvtPpSecurityGroup)]

def validate : Except LedgerError Unit :=
  update.thresholds.forM fun (name, value) => match value with
    | some r => validateThreshold name r
    | none => .ok ()

end ProtocolParamUpdate

/-- The models of a change win; a language that it does not name keeps its model. -/
def CostModels.merge (old new : CostModels) : CostModels where
  plutusV1 := new.plutusV1.or old.plutusV1
  plutusV2 := new.plutusV2.or old.plutusV2
  plutusV3 := new.plutusV3.or old.plutusV3
  plutusV4 := new.plutusV4.or old.plutusV4
  unknownCostModels := new.unknownCostModels ∪ old.unknownCostModels

namespace ProtocolParameters

variable (params : ProtocolParameters)

/-- `apply_key17_update`: up to protocol version 6 the key sets the price of a word. -/
def applyKey17Update (v : Nat) : ProtocolParameters :=
  if params.protocolVersionMajor ≤ 6 then
    { params with coinsPerUtxoWord := v, adaPerUtxoByte := v / 8 }
  else { params with adaPerUtxoByte := v }

/-- Overwrite the fields that a change names. -/
def overwrite (update : ProtocolParamUpdate) : ProtocolParameters :=
  let params := match update.adaPerUtxoByte with
    | some v => params.applyKey17Update v
    | none => params
  { params with
    minFeeA := update.minFeeA.getD params.minFeeA
    minFeeB := update.minFeeB.getD params.minFeeB
    maxBlockBodySize := update.maxBlockBodySize.getD params.maxBlockBodySize
    maxTxSize := update.maxTxSize.getD params.maxTxSize
    maxBlockHeaderSize := update.maxBlockHeaderSize.getD params.maxBlockHeaderSize
    keyDeposit := update.keyDeposit.getD params.keyDeposit
    poolDeposit := update.poolDeposit.getD params.poolDeposit
    eMax := update.eMax.getD params.eMax
    nOpt := update.nOpt.getD params.nOpt
    a0 := update.a0.getD params.a0
    rho := update.rho.getD params.rho
    tau := update.tau.getD params.tau
    d := update.d.getD params.d
    minPoolCost := update.minPoolCost.getD params.minPoolCost
    minUtxoValue := update.minUtxoValue.getD params.minUtxoValue
    costModels := (update.costModels.map params.costModels.merge).getD params.costModels
    executionCosts := update.executionCosts.getD params.executionCosts
    maxTxExUnits := update.maxTxExUnits.getD params.maxTxExUnits
    maxBlockExUnits := update.maxBlockExUnits.getD params.maxBlockExUnits
    maxValSize := update.maxValSize.getD params.maxValSize
    collateralPercentage := update.collateralPercentage.getD params.collateralPercentage
    maxCollateralInputs := update.maxCollateralInputs.getD params.maxCollateralInputs
    minFeeRefScriptCostPerByte :=
      update.minFeeRefScriptCostPerByte.getD params.minFeeRefScriptCostPerByte
    drepDeposit := update.drepDeposit.getD params.drepDeposit
    govActionLifetime := update.govActionLifetime.getD params.govActionLifetime
    govActionDeposit := update.govActionDeposit.getD params.govActionDeposit
    dvtPpNetworkGroup := update.dvtPpNetworkGroup.getD params.dvtPpNetworkGroup
    dvtPpEconomicGroup := update.dvtPpEconomicGroup.getD params.dvtPpEconomicGroup
    dvtPpTechnicalGroup := update.dvtPpTechnicalGroup.getD params.dvtPpTechnicalGroup
    dvtPpGovGroup := update.dvtPpGovGroup.getD params.dvtPpGovGroup
    dvtHardFork := update.dvtHardFork.getD params.dvtHardFork
    dvtNoConfidence := update.dvtNoConfidence.getD params.dvtNoConfidence
    dvtCommitteeNormal := update.dvtCommitteeNormal.getD params.dvtCommitteeNormal
    dvtCommitteeNoConfidence := update.dvtCommitteeNoConfidence.getD params.dvtCommitteeNoConfidence
    dvtConstitution := update.dvtConstitution.getD params.dvtConstitution
    dvtTreasuryWithdrawal := update.dvtTreasuryWithdrawal.getD params.dvtTreasuryWithdrawal
    pvtMotionNoConfidence := update.pvtMotionNoConfidence.getD params.pvtMotionNoConfidence
    pvtCommitteeNormal := update.pvtCommitteeNormal.getD params.pvtCommitteeNormal
    pvtCommitteeNoConfidence := update.pvtCommitteeNoConfidence.getD params.pvtCommitteeNoConfidence
    pvtHardFork := update.pvtHardFork.getD params.pvtHardFork
    pvtPpSecurityGroup := update.pvtPpSecurityGroup.getD params.pvtPpSecurityGroup
    committeeMinSize := update.minCommitteeSize.getD params.committeeMinSize
    committeeMaxTermLength := update.committeeTermLimit.getD params.committeeMaxTermLength
    drepActivity := update.drepActivity.getD params.drepActivity
    protocolVersionMajor := update.protocolVersionMajor.getD params.protocolVersionMajor
    protocolVersionMinor := update.protocolVersionMinor.getD params.protocolVersionMinor }

/-- `apply_protocol_param_update_impl`. -/
def applyUpdate (update : ProtocolParamUpdate) : Except LedgerError ProtocolParameters := do
  update.validate
  return params.overwrite update

end ProtocolParameters

/-! ## The groups of parameters -/

inductive DRepPPGroup where
  | network | economic | technical | gov
  deriving DecidableEq

inductive StakePoolPPGroup where
  | security | noVote
  deriving DecidableEq

namespace ProtocolParamUpdate

variable (update : ProtocolParamUpdate)

/-- Whether a change names one of the thresholds of the DReps. -/
def touchesDRepThresholds : Bool :=
  update.dvtPpNetworkGroup.isSome || update.dvtPpEconomicGroup.isSome ||
    update.dvtPpTechnicalGroup.isSome || update.dvtPpGovGroup.isSome ||
    update.dvtHardFork.isSome || update.dvtNoConfidence.isSome ||
    update.dvtCommitteeNormal.isSome || update.dvtCommitteeNoConfidence.isSome ||
    update.dvtConstitution.isSome || update.dvtTreasuryWithdrawal.isSome

/-- Whether a change names one of the thresholds of the pools. -/
def touchesPoolThresholds : Bool :=
  update.pvtMotionNoConfidence.isSome || update.pvtCommitteeNormal.isSome ||
    update.pvtCommitteeNoConfidence.isSome || update.pvtHardFork.isSome ||
    update.pvtPpSecurityGroup.isSome

/-- Which parameters a change names, each with its groups. -/
def touched : List (Bool × DRepPPGroup × StakePoolPPGroup) :=
  [(update.maxBlockBodySize.isSome, .network, .security),
   (update.maxTxSize.isSome, .network, .security),
   (update.maxBlockHeaderSize.isSome, .network, .security),
   (update.maxBlockExUnits.isSome, .network, .security),
   (update.maxValSize.isSome, .network, .security),
   (update.maxTxExUnits.isSome, .network, .noVote),
   (update.maxCollateralInputs.isSome, .network, .noVote),
   (update.minFeeA.isSome, .economic, .security),
   (update.minFeeB.isSome, .economic, .security),
   (update.adaPerUtxoByte.isSome, .economic, .security),
   (update.minFeeRefScriptCostPerByte.isSome, .economic, .security),
   (update.keyDeposit.isSome, .economic, .noVote),
   (update.poolDeposit.isSome, .economic, .noVote),
   (update.rho.isSome, .economic, .noVote),
   (update.tau.isSome, .economic, .noVote),
   (update.minPoolCost.isSome, .economic, .noVote),
   (update.executionCosts.isSome, .economic, .noVote),
   (update.eMax.isSome, .technical, .noVote),
   (update.nOpt.isSome, .technical, .noVote),
   (update.a0.isSome, .technical, .noVote),
   (update.costModels.isSome, .technical, .noVote),
   (update.collateralPercentage.isSome, .technical, .noVote),
   (update.govActionDeposit.isSome, .gov, .security),
   (update.touchesDRepThresholds, .gov, .noVote),
   (update.touchesPoolThresholds, .gov, .noVote),
   (update.minCommitteeSize.isSome, .gov, .noVote),
   (update.committeeTermLimit.isSome, .gov, .noVote),
   (update.govActionLifetime.isSome, .gov, .noVote),
   (update.drepDeposit.isSome, .gov, .noVote),
   (update.drepActivity.isSome, .gov, .noVote)]

def modifiedPpGroups : List (DRepPPGroup × StakePoolPPGroup) :=
  update.touched.filterMap fun (named, groups) => if named then some groups else none

end ProtocolParamUpdate

end Dugite
