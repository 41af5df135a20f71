import Dugite.Ledger.ParamUpdate
import Dugite.Ledger.SubStates
import Dugite.Validation.Accounting

/-!
# Votes on governance actions

`check_ratification_impl`: the votes of the DReps, of the pools and of the committee on an action,
and the thresholds they have to reach. Stake sums are sums in `u64`.
-/

namespace Dugite

/-! ## The votes on one action -/

/-- The derived order of credentials, keys before scripts. -/
def Credential.rank : Credential → Nat ×ₗ Nat
  | .verificationKey h => toLex (0, h.toNat)
  | .script h => toLex (1, h.toNat)

theorem Credential.rank_injective : Function.Injective Credential.rank := by
  intro a b h
  cases a <;> cases b <;> have hpair := Prod.mk.inj (toLex.injective h)
  · exact congrArg _ (BitVec.eq_of_toNat_eq hpair.2)
  · cases hpair.1
  · cases hpair.1
  · exact congrArg _ (BitVec.eq_of_toNat_eq hpair.2)

/-- The derived order of voters: committee, DReps, pools. -/
def Voter.rank : Voter → Nat ×ₗ Nat ×ₗ Nat
  | .constitutionalCommittee c => toLex (0, c.rank)
  | .drep c => toLex (1, c.rank)
  | .stakePool h => toLex (2, toLex (0, h.toNat))

theorem Voter.rank_injective : Function.Injective Voter.rank := by
  intro a b h
  cases a <;> cases b <;> have hpair := Prod.mk.inj (toLex.injective h)
  case constitutionalCommittee.constitutionalCommittee =>
    exact congrArg _ (Credential.rank_injective hpair.2)
  case drep.drep => exact congrArg _ (Credential.rank_injective hpair.2)
  case stakePool.stakePool =>
    exact congrArg _ (BitVec.eq_of_toNat_eq (Prod.mk.inj (toLex.injective hpair.2)).2)
  all_goals cases hpair.1

abbrev VotesByAction := FinMap GovActionId (FinMap Voter VotingProcedure)

/-- The votes on an action, in the order of the voters. -/
def votesOn (votes : VotesByAction) (actionId : GovActionId) : List (Voter × VotingProcedure) :=
  Listing.entries Voter.rank Voter.rank_injective ((votes.lookup actionId).getD ∅)

/-- Votes by a key of the voter; of two voters with one key the later one counts. -/
def votesBy {K : Type} [DecidableEq K] (key : Voter → Option K)
    (votes : List (Voter × VotingProcedure)) : FinMap K Vote :=
  FinMap.insertAll (votes.filterMap fun e => (key e.1).map fun k => (k, e.2.vote)) ∅

def drepKey : Voter → Option Hash32
  | .drep c => some c.toTypedHash32
  | _ => none

/-- A pool votes with the first 28 bytes of its key. -/
def poolKey : Voter → Option Hash28
  | .stakePool h => some h.toHash28
  | _ => none

def committeeKey : Voter → Option Hash32
  | .constitutionalCommittee c => some c.toTypedHash32
  | _ => none

/-! ## Stake -/

/-- `+=` over the entries of a map, in `u64`. -/
def stakeSum {K V : Type} [DecidableEq K] (f : K → V → Nat) (m : FinMap K V) : Nat :=
  m.sumBy f % 2 ^ 64

/-- The stake of a credential: its unspent outputs and its rewards. -/
def credentialStake (stakeMap : FinMap Hash32 Nat) (certs : CertSubState) (cred : Hash32) : Nat :=
  wrapAdd ((stakeMap.lookup cred).getD 0) ((certs.rewardAccounts.lookup cred).getD 0)

/-- The stake that delegates to a pool, by a scan over the delegations. -/
def delegatedStake (stakeMap : FinMap Hash32 Nat) (certs : CertSubState) (poolId : Hash28) : Nat :=
  stakeSum (fun cred pool => if pool = poolId then credentialStake stakeMap certs cred else 0)
    certs.delegations

inductive DefaultVote where
  | no | abstain | noConfidence
  deriving DecidableEq

/-- `default_spo_vote_from`: a pool that does not vote follows the DRep of its reward account. -/
def defaultSpoVote (poolId : Hash28) (certs : CertSubState) (delegations : FinMap Hash32 DRep) :
    DefaultVote :=
  match certs.poolParams.lookup poolId with
  | none => .no
  | some reg =>
    if reg.rewardAccount.length < 29 then .no
    else match delegations.lookup (rewardAccountToHash reg.rewardAccount) with
      | some .noConfidence => .noConfidence
      | some .abstain => .abstain
      | _ => .no

/-- What a pass over the proposals reads and does not change. -/
structure RatifyEnv where
  snapshot : PulsingSnapshot
  /-- The frozen stake of the DReps that have not expired. -/
  drepPower : FinMap Hash32 Nat
  /-- The pool stakes of the set snapshot. -/
  poolStake : Option (FinMap Hash28 Nat)
  totalSpoStake : Nat
  epoch : Nat
  /-- The stake of each credential in unspent outputs. -/
  stakeMap : FinMap Hash32 Nat

structure Tally where
  (drepYes drepTotal spoYes spoAbstain : Nat)
  deriving DecidableEq

def GovAction.isHardFork : GovAction → Bool
  | .hardForkInitiation _ _ => true
  | _ => false

def GovAction.isNoConfidence : GovAction → Bool
  | .noConfidence _ => true
  | _ => false

section
variable (env : RatifyEnv) (s : SubStates)

def SubStates.bootstrap : Bool := s.epochs.protocolParams.protocolVersionMajor == 9

/-- The vote of a pool that holds stake, given or by default. -/
def spoPosition (action : GovAction) (votes : FinMap Hash28 Vote) (poolId : Hash28) : Vote :=
  match votes.lookup poolId with
  | some vote => vote
  | none =>
    if action.isHardFork then .no
    else if s.bootstrap then .abstain
    else
      let delegations := if env.snapshot.voteDelegations.keys = ∅ then s.gov.voteDelegations
        else env.snapshot.voteDelegations
      match defaultSpoVote poolId s.certs delegations with
      | .noConfidence => if action.isNoConfidence then .yes else .no
      | .abstain => .abstain
      | .no => .no

/-- The pool stake that takes a position. Without a snapshot only pools that vote count, with the
stake that delegates to them now. -/
def spoStake (action : GovAction) (votes : FinMap Hash28 Vote) (position : Vote) : Nat :=
  match env.poolStake.or (s.epochs.snapshots.mark.map (·.poolStake)) with
  | some poolStake => stakeSum
      (fun pool stake => if spoPosition env s action votes pool = position then stake else 0)
      poolStake
  | none => stakeSum
      (fun pool vote => if vote = position then delegatedStake env.stakeMap s.certs pool else 0)
      votes

/-- The DRep stake that took a position. -/
def drepStake (votes : FinMap Hash32 Vote) (position : Vote) : Nat :=
  stakeSum (fun drep power => if votes.lookup drep = some position then power else 0) env.drepPower

/-- `count_votes_by_type_impl`. The stake that delegates to no confidence votes for a motion of no
confidence and counts against everything else. -/
def countVotesByType (actionId : GovActionId) (action : GovAction) : Tally :=
  let votes := votesOn env.snapshot.votesByAction actionId
  let pools := votesBy poolKey votes
  let dreps := votesBy drepKey votes
  let noConfidence := env.snapshot.drepNoConfidence
  let drepYes := drepStake env dreps .yes
  { drepYes := if action.isNoConfidence then wrapAdd drepYes noConfidence else drepYes
    drepTotal := satSub (wrapAdd (stakeSum (fun _ power => power) env.drepPower) noConfidence)
      (drepStake env dreps .abstain)
    spoYes := spoStake env s action pools .yes
    spoAbstain := spoStake env s action pools .abstain }

end

/-! ## Thresholds -/

/-- `check_threshold`: a zero threshold is always met, and nothing else without stake. -/
def checkThreshold (yes total : Nat) (threshold : Rational) : Bool :=
  if threshold.isZero then true
  else if total = 0 then false
  else threshold.isMetBy yes total

def ProtocolParameters.drepGroupThreshold (params : ProtocolParameters) : DRepPPGroup → Rational
  | .network => params.dvtPpNetworkGroup
  | .economic => params.dvtPpEconomicGroup
  | .technical => params.dvtPpTechnicalGroup
  | .gov => params.dvtPpGovGroup

/-- Every group that a change touches has its own threshold. -/
def ppChangeDRepAllGroupsMet (update : ProtocolParamUpdate) (params : ProtocolParameters)
    (drepYes drepTotal : Nat) : Bool :=
  update.modifiedPpGroups.all fun (group, _) =>
    checkThreshold drepYes drepTotal (params.drepGroupThreshold group)

def ppChangeSpoThreshold (update : ProtocolParamUpdate) (params : ProtocolParameters) :
    Option Rational :=
  if update.modifiedPpGroups.any fun (_, group) => group = .security then
    some params.pvtPpSecurityGroup
  else none

/-- The committee, as a pass over the proposals threads it. -/
structure Committee where
  hotKeys : FinMap Hash32 Hash32
  expiration : FinMap Hash32 Nat
  resigned : FinMap Hash32 (Option Anchor)
  threshold : Option Rational

namespace Committee

variable (committee : Committee) (epoch : Nat)

/-- The hot key with which a member may vote: it has one, and it has neither expired nor resigned. -/
def activeHotKey (cold : Hash32) (expiry : Nat) : Option Hash32 :=
  if expiry < epoch then none
  else if (committee.resigned.lookup cold).isSome then none
  else committee.hotKeys.lookup cold

/-- The number of members that may vote and satisfy a test of their vote. -/
def count (test : Hash32 → Bool) : Nat :=
  committee.expiration.sumBy fun cold expiry =>
    match committee.activeHotKey epoch cold expiry with
    | some hot => if test hot then 1 else 0
    | none => 0

/-- `check_cc_approval`. A member that does not vote counts against, one that abstains not at
all. -/
def approves (votes : FinMap Hash32 Vote) (minSize : Nat) (bootstrap : Bool) : Bool :=
  match committee.threshold with
  | none => false
  | some threshold =>
    let activeSize := committee.count epoch fun _ => true
    let yes := committee.count epoch fun hot => votes.lookup hot = some .yes
    let total := committee.count epoch fun hot => votes.lookup hot ≠ some .abstain
    if !bootstrap && decide (activeSize < minSize) then false
    else if threshold.isZero then true
    else if total = 0 then false
    else threshold.isMetBy yes total

end Committee

/-- Thresholds of the DReps do not apply in the bootstrap phase. -/
def bootstrapped (bootstrap : Bool) (threshold : Rational) : Rational :=
  if bootstrap then ⟨0, 1⟩ else threshold

/-- The sum of the withdrawals of an action, in saturating arithmetic. -/
def withdrawalTotal (withdrawals : SortedMap Bytes Nat) : Nat := withdrawals.values.foldl satAdd 0

/-- `check_ratification_impl`. -/
def checkRatification (env : RatifyEnv) (s : SubStates) (committee : Committee)
    (remainingTreasury : Nat) (actionId : GovActionId) (action : GovAction) : Bool :=
  let params := s.epochs.protocolParams
  let bootstrap := s.bootstrap
  let tally := countVotesByType env s actionId action
  let drepMet := fun threshold =>
    checkThreshold tally.drepYes tally.drepTotal (bootstrapped bootstrap threshold)
  let spoMet := fun threshold =>
    checkThreshold tally.spoYes (satSub env.totalSpoStake tally.spoAbstain) threshold
  let ccMet := committee.approves env.epoch
    (votesBy committeeKey (votesOn env.snapshot.votesByAction actionId))
    params.committeeMinSize bootstrap
  match action with
  | .infoAction => false
  | .parameterChange _ update _ =>
    (bootstrap || ppChangeDRepAllGroupsMet update params tally.drepYes tally.drepTotal) &&
      (ppChangeSpoThreshold update params).all spoMet && ccMet
  | .hardForkInitiation _ _ => drepMet params.dvtHardFork && spoMet params.pvtHardFork && ccMet
  | .noConfidence _ => drepMet params.dvtNoConfidence && spoMet params.pvtMotionNoConfidence
  | .updateCommittee _ _ membersToAdd _ =>
    if membersToAdd.values.any fun expiry =>
        decide (wrapAdd env.epoch params.committeeMaxTermLength < expiry) then false
    else if s.gov.noConfidence then
      drepMet params.dvtCommitteeNoConfidence && spoMet params.pvtCommitteeNoConfidence
    else drepMet params.dvtCommitteeNormal && spoMet params.pvtCommitteeNormal
  | .newConstitution _ _ => drepMet params.dvtConstitution && ccMet
  | .treasuryWithdrawals withdrawals _ =>
    if remainingTreasury < withdrawalTotal withdrawals then false
    else drepMet params.dvtTreasuryWithdrawal && ccMet

end Dugite
