import Dugite.Ledger.Submission
import Dugite.Ledger.Votes

/-!
# Ratification

At the end of an epoch boundary `freeze` takes a snapshot of what the votes are about and runs
`ratifyProposals` on a copy of the state: a pass over the proposals of the snapshot that enacts what
is accepted and threads the roots, the committee and the treasury that is still free. Its outcome,
the plan, is applied to the state at the next boundary by `applyRatifyDecision`.
-/

namespace Dugite

open GovActionId

/-! ## Enacting one action -/

/-- Pay one withdrawal; those to accounts that are not registered stay in the treasury. -/
def payWithdrawal (acc : FinMap Hash32 Nat × Nat) (e : Bytes × Nat) : FinMap Hash32 Nat × Nat :=
  if e.2 = 0 ∨ e.1.length < 29 then acc
  else
    let key := rewardAccountToHash e.1
    match acc.1.lookup key with
    | some balance => (acc.1.insert key (satAdd balance e.2), satAdd acc.2 e.2)
    | none => acc

namespace GovernanceState

variable (gov : GovernanceState)

def dissolveCommittee : GovernanceState :=
  { gov with
    committeeHotKeys := ∅
    committeeExpiration := ∅
    committeeResigned := ∅
    scriptCommitteeCredentials := ∅
    scriptCommitteeHotCredentials := ∅
    committeeThreshold := none
    noConfidence := true }

def removeMember (c : Credential) : GovernanceState :=
  { gov with
    committeeExpiration := gov.committeeExpiration.erase c.toTypedHash32
    scriptCommitteeCredentials := gov.scriptCommitteeCredentials.erase c.toTypedHash32 }

def addMember (member : Credential × Nat) : GovernanceState :=
  let key := member.1.toTypedHash32
  { gov with
    committeeExpiration := gov.committeeExpiration.insert key member.2
    scriptCommitteeCredentials :=
      if member.1.isScript then insert key gov.scriptCommitteeCredentials
      else gov.scriptCommitteeCredentials.erase key }

/-- Members leave and join; hot keys and resignations are pruned later. -/
def updateCommittee (membersToRemove : List Credential) (membersToAdd : SortedMap Credential Nat)
    (threshold : Rational) : GovernanceState :=
  { membersToAdd.entries.foldl addMember (membersToRemove.foldl removeMember gov) with
    committeeThreshold := some threshold
    noConfidence := false }

end GovernanceState

namespace SubStates

def withdrawTreasury (s : SubStates) (withdrawals : SortedMap Bytes Nat) : SubStates :=
  let (rewardAccounts, disbursed) :=
    withdrawals.entries.foldl payWithdrawal (s.certs.rewardAccounts, 0)
  { s with
    certs := { s.certs with rewardAccounts }
    epochs := { s.epochs with treasury := satSub s.epochs.treasury disbursed } }

/-- `enact_gov_action_impl`. A change of parameters that is not well-formed does nothing. -/
def enactGovAction (s : SubStates) : GovAction → SubStates
  | .parameterChange _ update _ =>
    match s.epochs.protocolParams.applyUpdate update with
    | .ok protocolParams => { s with epochs := { s.epochs with protocolParams } }
    | .error _ => s
  | .hardForkInitiation _ version =>
    { s with epochs := { s.epochs with protocolParams := { s.epochs.protocolParams with
        protocolVersionMajor := version.1
        protocolVersionMinor := version.2 } } }
  | .treasuryWithdrawals withdrawals _ => s.withdrawTreasury withdrawals
  | .noConfidence _ => { s with gov := s.gov.dissolveCommittee }
  | .updateCommittee _ membersToRemove membersToAdd threshold =>
    { s with gov := s.gov.updateCommittee membersToRemove membersToAdd threshold }
  | .newConstitution _ constitution =>
    { s with gov := { s.gov with constitution := some constitution } }
  | .infoAction => s

end SubStates

/-- `update_enacted_root_local`. -/
def EnactedGovRoots.update (roots : EnactedGovRoots) (id : GovActionId) :
    GovAction → EnactedGovRoots
  | .parameterChange _ _ _ => { roots with pparamUpdate := some id }
  | .hardForkInitiation _ _ => { roots with hardFork := some id }
  | .noConfidence _ => { roots with committee := some id }
  | .updateCommittee _ _ _ _ => { roots with committee := some id }
  | .newConstitution _ _ => { roots with constitution := some id }
  | .treasuryWithdrawals _ _ => roots
  | .infoAction => roots

/-! ## The pass over the proposals -/

/-- Lower goes first. -/
def govActionPriority : GovAction → Nat
  | .noConfidence _ => 0
  | .updateCommittee _ _ _ _ => 1
  | .newConstitution _ _ => 2
  | .hardForkInitiation _ _ => 3
  | .parameterChange _ _ _ => 4
  | .treasuryWithdrawals _ _ => 5
  | .infoAction => 6

/-- Nothing else is ratified in the pass after such an action. -/
def isDelayingAction : GovAction → Bool
  | .noConfidence _ => true
  | .hardForkInitiation _ _ => true
  | .updateCommittee _ _ _ _ => true
  | .newConstitution _ _ => true
  | _ => false

def changesCommittee : GovAction → Bool
  | .noConfidence _ => true
  | .updateCommittee _ _ _ _ => true
  | _ => false

def changesPparams : GovAction → Bool
  | .parameterChange _ _ _ => true
  | .hardForkInitiation _ _ => true
  | _ => false

/-- An action continues the root of its purpose; one without a purpose has neither. -/
def prevActionAsExpected (roots : EnactedGovRoots) (action : GovAction) : Bool :=
  decide (govActionPrevId action = roots.rootFor action)

def GovernanceState.committee (gov : GovernanceState) : Committee where
  hotKeys := gov.committeeHotKeys
  expiration := gov.committeeExpiration
  resigned := gov.committeeResigned
  threshold := gov.committeeThreshold

namespace PulsingSnapshot

variable (snapshot : PulsingSnapshot)

def committee : Committee where
  hotKeys := snapshot.committeeHotKeys
  expiration := snapshot.committeeExpiration
  resigned := snapshot.committeeResigned
  threshold := snapshot.committeeThreshold

/-- Expiry is judged by the epoch of the snapshot. -/
def drepIsExpired (drep : Hash32) : Bool :=
  ((snapshot.drepExpiry.lookup drep).map fun expiry => decide (expiry < snapshot.snapshotEpoch)).getD
    false

/-- The frozen proposals by priority, and in the order of their submission. -/
def candidates : List (GovActionId × ProposalState) :=
  (Listing.entries rank rank_injective snapshot.proposals).insertionSort
    fun a b => toLex (govActionPriority a.2.procedure.govAction, a.2.submissionIndex) ≤
      toLex (govActionPriority b.2.procedure.govAction, b.2.submissionIndex)

end PulsingSnapshot

/-- What a pass over the proposals threads. -/
structure RatifyPass where
  state : SubStates
  committee : Committee
  roots : EnactedGovRoots
  /-- The part of the frozen treasury that no accepted action takes. -/
  capTreasury : Nat
  ratified : List GovActionId := []
  expired : List GovActionId := []
  delayed : Bool := false

namespace RatifyPass

/-- The treasury that is free after an action: its withdrawals count in full. -/
def capAfter (cap : Nat) : GovAction → Nat
  | .treasuryWithdrawals withdrawals _ => satSub cap (withdrawalTotal withdrawals)
  | _ => cap

def accepts (env : RatifyEnv) (pass : RatifyPass) (id : GovActionId) (action : GovAction) : Bool :=
  prevActionAsExpected pass.roots action && !pass.delayed &&
    checkRatification env pass.state pass.committee pass.capTreasury id action

def enact (pass : RatifyPass) (id : GovActionId) (action : GovAction) : RatifyPass :=
  let state := pass.state.enactGovAction action
  { pass with
    state
    committee := if changesCommittee action then state.gov.committee else pass.committee
    roots := pass.roots.update id action
    capTreasury := capAfter pass.capTreasury action
    ratified := pass.ratified ++ [id]
    delayed := pass.delayed || isDelayingAction action }

/-- One candidate: enacted, or else expired if its time is over. -/
def step (env : RatifyEnv) (pass : RatifyPass) (e : GovActionId × ProposalState) : RatifyPass :=
  if pass.accepts env e.1 e.2.procedure.govAction then pass.enact e.1 e.2.procedure.govAction
  else if e.2.expiresEpoch < env.epoch then { pass with expired := pass.expired ++ [e.1] }
  else pass

end RatifyPass

/-- `rebuild_forest_from_flat`: every proposal joins its tree, in the order of the ids. -/
def rebuildForestFromFlat (proposals : Proposals) (roots : EnactedGovRoots) : ProposalForest :=
  let start : ProposalForest :=
    { roots := ⟨⟨roots.pparamUpdate, ∅⟩, ⟨roots.hardFork, ∅⟩, ⟨roots.committee, ∅⟩,
        ⟨roots.constitution, ∅⟩⟩ }
  (Listing.entries rank rank_injective proposals).foldl
    (fun forest e => match govActionPurposeTag e.2.procedure.govAction with
      | some purpose => forest.modify purpose fun tree =>
          tree.addProposal e.1 (govActionPrevId e.2.procedure.govAction)
      | none => forest) start

/-- The roots are those of a state that never had a forest. -/
def ProposalForest.rootsDefault (forest : ProposalForest) : Bool :=
  [forest.roots.pparam, forest.roots.hardFork, forest.roots.committee,
    forest.roots.constitution].all fun root => root.root.isNone && decide (root.children = ∅)

namespace SubStates

/-- A state that was loaded without its forest gets it back. -/
def withForest (s : SubStates) : SubStates :=
  if s.gov.forest.rootsDefault && decide (s.gov.proposals.keys ≠ ∅) then
    { s with gov := { s.gov with
        forest := rebuildForestFromFlat s.gov.proposals s.gov.enacted } }
  else s

/-- The stake that pools vote with in all: of the set snapshot, else of the mark snapshot, else of
the delegations. -/
def totalSpoStake (stakeMap : FinMap Hash32 Nat) (s : SubStates) : Nat :=
  let ofSnapshot := fun snapshot : StakeSnapshot =>
    max (min (snapshot.poolStake.sumBy fun _ stake => stake) u64Max) 1
  match s.epochs.snapshots.set.or s.epochs.snapshots.mark with
  | some snapshot => ofSnapshot snapshot
  | none => max (min (s.certs.delegations.sumBy fun cred _ =>
      credentialStake stakeMap s.certs cred) u64Max) 1

def ratifyEnv (stakeMap : FinMap Hash32 Nat) (epoch : Nat) (s : SubStates)
    (snapshot : PulsingSnapshot) : RatifyEnv where
  snapshot
  drepPower := snapshot.drepDistr.retain fun drep _ => !snapshot.drepIsExpired drep
  poolStake := s.epochs.snapshots.set.map (·.poolStake)
  totalSpoStake := s.totalSpoStake stakeMap
  epoch
  stakeMap

/-- What governance is in a state. -/
def enactedTerms (s : SubStates) : EnactedGovTerms where
  committeeExpiration := s.gov.committeeExpiration
  committeeThreshold := s.gov.committeeThreshold
  constitution := s.gov.constitution
  prevGovActionIds := s.gov.enacted

section
variable (stakeMap : FinMap Hash32 Nat)

variable (epoch : Nat) (s : SubStates)

/-- The pass over the candidates of a state; without a snapshot there are none. -/
def ratifyPass : RatifyPass :=
  match s.gov.drepPulsingState with
  | none => ⟨s, s.gov.committee, s.gov.enacted, s.epochs.treasury, [], [], false⟩
  | some pulser =>
    pulser.snapshot.candidates.foldl (RatifyPass.step (s.ratifyEnv stakeMap epoch pulser.snapshot))
      ⟨s, pulser.snapshot.committee, pulser.snapshot.enacted, pulser.snapshot.treasury, [], [], false⟩

/-- `ratify_proposals_impl`. -/
def ratifyProposals : PulsedRatifyState × SubStates :=
  let pass := s.withForest.ratifyPass stakeMap epoch
  let enacted := { pass.state with gov := { pass.state.gov with enacted := pass.roots } }
  let applied := enacted.proposalsApplyEnactment pass.ratified pass.expired
  let final := { applied with gov := { applied.gov with lastRatifyDelayed := pass.delayed } }
  ({ computedAtEpoch := epoch
     enacted := pass.ratified
     expired := pass.expired
     delayed := pass.delayed
     curPparams := final.epochs.protocolParams
     hasPparamsChanges := final.gov.lastRatified.any fun e =>
       changesPparams e.2.procedure.govAction
     enactState := final.enactedTerms }, final)

/-! ## Freezing and applying a plan -/

/-- The stake that delegates to a DRep, with the deposits of the proposals that return to the
delegator. -/
def votingStake (s : SubStates) (cred : Hash32) : Nat :=
  satAdd (credentialStake stakeMap s.certs cred)
    (stakeSum (fun _ proposal =>
      if rewardAccountToHash proposal.procedure.returnAddr = cred then proposal.procedure.deposit
      else 0) s.gov.proposals)

/-- The stake of a delegator goes to its DRep, if that is registered. -/
def addVotingStake (s : SubStates) (distr : FinMap Hash32 Nat)
    (e : Hash32 × DRep) : FinMap Hash32 Nat :=
  match e.2.credentialHash32 with
  | none => distr
  | some key =>
    if (s.gov.dreps.lookup key).isSome then
      distr.insert key (wrapAdd ((distr.lookup key).getD 0) (s.votingStake stakeMap e.1))
    else distr

/-- `build_pulsing_snapshot`. -/
def buildPulsingSnapshot : PulsingSnapshot where
  proposals := s.gov.proposals
  votesByAction := s.gov.votesByAction
  committeeHotKeys := s.gov.committeeHotKeys
  committeeExpiration := s.gov.committeeExpiration
  committeeResigned := s.gov.committeeResigned
  committeeThreshold := s.gov.committeeThreshold
  enacted := s.gov.enacted
  snapshotEpoch := epoch
  voteDelegations := s.gov.voteDelegations
  treasury := s.epochs.treasury
  drepDistr := (Listing.entries BitVec.toNat Hash32.eq_of_toNat
    s.gov.voteDelegations).foldl (addVotingStake stakeMap s) ∅
  drepExpiry := s.gov.dreps.mapValues (·.drepExpiry)
  drepNoConfidence := stakeSum (fun cred drep =>
    if drep = .noConfidence then s.votingStake stakeMap cred else 0) s.gov.voteDelegations
  drepAbstain := stakeSum (fun cred drep =>
    if drep = .abstain then s.votingStake stakeMap cred else 0) s.gov.voteDelegations

/-- `compute_pulsed_ratify_state`: the pass that the next boundary would make, with the stake
snapshot that it will see, on a copy of the state. -/
def computePulsedRatifyState : PulsedRatifyState :=
  let set := s.epochs.snapshots.mark.or s.epochs.snapshots.set
  ({ s with epochs := { s.epochs with
      snapshots := { s.epochs.snapshots with set } } }.ratifyProposals stakeMap epoch).1

/-- `set_fresh_drep_pulsing_state`: the snapshot is installed first, since the pass reads it from
the state. -/
def freeze (newEpoch : Nat) (s : SubStates) : SubStates :=
  let snapshot := s.buildPulsingSnapshot stakeMap newEpoch
  let pulser := fun ratifyState : PulsedRatifyState =>
    { s with gov := { s.gov with drepPulsingState := some ⟨snapshot, ratifyState⟩ } }
  let placeholder : PulsedRatifyState :=
    { computedAtEpoch := newEpoch
      enacted := []
      expired := []
      delayed := false
      curPparams := s.epochs.protocolParams
      hasPparamsChanges := false
      enactState := {} }
  pulser ((pulser placeholder).computePulsedRatifyState stakeMap newEpoch)

end

/-- One planned action; it is read from the frozen proposals, or else from the open ones. -/
def enactPlanned (frozen : Option PulsingSnapshot) (acc : SubStates × EnactedGovRoots)
    (id : GovActionId) : SubStates × EnactedGovRoots :=
  match (frozen.bind fun snapshot => snapshot.proposals.lookup id).or
      (acc.1.gov.proposals.lookup id) with
  | some proposal =>
    let action := proposal.procedure.govAction
    (acc.1.enactGovAction action, acc.2.update id action)
  | none => acc

/-- `apply_ratify_decision`. -/
def applyRatifyDecision (s : SubStates) (plan : PulsedRatifyState) : SubStates :=
  let frozen := s.gov.drepPulsingState.map (·.snapshot)
  let roots := (frozen.map (·.enacted)).getD s.gov.enacted
  let (s, roots) := plan.enacted.foldl (enactPlanned frozen) (s, roots)
  let s := { s with gov := { s.gov with enacted := roots } }
  let s := s.proposalsApplyEnactment plan.enacted plan.expired
  { s with gov := { s.gov with lastRatifyDelayed := plan.delayed } }

/-- `ratify_at_boundary`: without a plan nothing happens. -/
def ratifyAtBoundary (s : SubStates) : SubStates :=
  match s.gov.drepPulsingState with
  | some pulser => s.applyRatifyDecision pulser.ratifyState
  | none =>
    { s with gov := { s.gov with lastRatified := [], lastExpired := [], lastRatifyDelayed := false } }

end SubStates

end Dugite
