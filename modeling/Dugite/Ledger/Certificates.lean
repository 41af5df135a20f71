import Dugite.Ledger.SubStates

/-!
# Applying certificates

`apply_shelley_cert` and `apply_conway_cert`, which every certificate of a Conway transaction goes
through one after the other: each handles its own kinds and passes over the rest. The four Conway
registrations and the plain one register a stake key in the same way, as the two deregistrations
deregister it.
-/

namespace Dugite

/-! ## Vote delegations

A DRep lists the credentials that delegate to it, beside the delegation itself. -/

namespace GovernanceState

/-- Change the entry of a DRep, if it has one. -/
def modifyDRep (key : Hash32) (f : DRepRegistration → DRepRegistration) (gov : GovernanceState) :
    GovernanceState :=
  match gov.dreps.lookup key with
  | some drep => { gov with dreps := gov.dreps.insert key (f drep) }
  | none => gov

theorem lookup_modifyDRep (key key' : Hash32) (f : DRepRegistration → DRepRegistration)
    (gov : GovernanceState) :
    (gov.modifyDRep key f).dreps.lookup key' =
      if key' = key then (gov.dreps.lookup key').map f else gov.dreps.lookup key' := by
  unfold modifyDRep
  cases hdrep : gov.dreps.lookup key with
  | none =>
    dsimp only
    split
    · next heq => rw [heq, hdrep, Option.map_none]
    · rfl
  | some drep =>
  rw [FinMap.lookup_insert_ite]
  split
  · next heq => rw [heq, hdrep, Option.map_some]
  · rfl

/-- The DRep that lists a credential as one that delegates to it. -/
def listedUnder (stakeCred : Hash32) (gov : GovernanceState) : Option Hash32 := do
  let key ← (← gov.voteDelegations.lookup stakeCred).credentialHash32
  let drep ← gov.dreps.lookup key
  if stakeCred ∈ drep.delegs then some key else none

/-- Take a credential off the list of its DRep; returns the DRep when it was on the list. -/
def undelegateVote (stakeCred : Hash32) (gov : GovernanceState) : GovernanceState × Option Hash32 :=
  match gov.listedUnder stakeCred with
  | some key =>
    (gov.modifyDRep key fun drep => { drep with delegs := drep.delegs.erase stakeCred }, some key)
  | none => (gov, none)

/-- Delegate the vote of a credential. Before version 10 the credential goes back on the list of the
DRep it leaves. -/
def delegateVote (preserveIncorrectDelegation : Bool) (stakeCred : Hash32) (newDrep : DRep)
    (gov : GovernanceState) : GovernanceState :=
  let (gov, previous) := gov.undelegateVote stakeCred
  let gov := { gov with voteDelegations := gov.voteDelegations.insert stakeCred newDrep }
  let join := fun drep : DRepRegistration => { drep with delegs := insert stakeCred drep.delegs }
  match newDrep.credentialHash32 with
  | none => gov
  | some target =>
    if (gov.dreps.lookup target).isNone then gov
    else
      let gov := gov.modifyDRep target join
      match previous with
      | some prev =>
        if preserveIncorrectDelegation && decide (prev ≠ target) then gov.modifyDRep prev join
        else gov
      | none => gov

end GovernanceState

/-! ## Stake keys and pools -/

namespace SubStates

/-- Register a stake key, with the deposit paid for it. An account that is there keeps its balance;
a deposit that is on record is replaced. -/
def registerStakeKey (c : Credential) (deposit : Nat) (s : SubStates) : SubStates :=
  let key := c.toTypedHash32
  { s with certs := { s.certs with
      rewardAccounts := if (s.certs.rewardAccounts.lookup key).isSome then s.certs.rewardAccounts
        else s.certs.rewardAccounts.insert key 0
      scriptStakeCredentials := if c.isScript then insert key s.certs.scriptStakeCredentials
        else s.certs.scriptStakeCredentials
      totalStakeKeyDeposits := wrapAdd s.certs.totalStakeKeyDeposits deposit
      stakeKeyDeposits := s.certs.stakeKeyDeposits.insert key deposit } }

/-- Deregister a stake key. The total falls by the deposit on record, or by `refund` when there is
none. -/
def deregisterStakeKey (c : Credential) (refund : Nat) (s : SubStates) : SubStates :=
  let key := c.toTypedHash32
  let stored := (s.certs.stakeKeyDeposits.lookup key).getD refund
  let gov := (s.gov.undelegateVote key).1
  { s with
    certs := { s.certs with
      stakeKeyDeposits := s.certs.stakeKeyDeposits.erase key
      totalStakeKeyDeposits := satSub s.certs.totalStakeKeyDeposits stored
      delegations := s.certs.delegations.erase key
      rewardAccounts := s.certs.rewardAccounts.erase key
      scriptStakeCredentials := s.certs.scriptStakeCredentials.erase key
      pointerMap := s.certs.pointerMap.retain fun _ v => v ≠ key }
    gov := { gov with voteDelegations := gov.voteDelegations.erase key } }

def delegateStake (c : Credential) (poolHash : Hash28) (s : SubStates) : SubStates :=
  { s with certs := { s.certs with
      delegations := s.certs.delegations.insert c.toTypedHash32 poolHash } }

def delegateVote (c : Credential) (drep : DRep) (s : SubStates) : SubStates :=
  let preserve := decide (s.epochs.protocolParams.protocolVersionMajor < 10)
  { s with gov := s.gov.delegateVote preserve c.toTypedHash32 drep }

/-- The VRF keys after a pool announces a new one: an earlier announcement in the same epoch gives
its key back. -/
def announceVrfKey (params : PoolParams) (certs : CertSubState) : FinMap Hash32 Nat :=
  match certs.futurePoolParams.lookup params.operator with
  | some pending =>
    if pending.vrfKeyhash = params.vrfKeyhash then certs.vrfKeyHashes
    else (certs.vrfKeyHashes.erase pending.vrfKeyhash).insert params.vrfKeyhash 1
  | none => certs.vrfKeyHashes.insert params.vrfKeyhash 1

/-- Register a pool. The parameters of a pool that is registered wait for the epoch boundary, and it
pays no deposit. -/
def registerPool (params : PoolParams) (s : SubStates) : SubStates :=
  let trackVrf := decide (11 ≤ s.epochs.protocolParams.protocolVersionMajor)
  let registration := PoolRegistration.ofParams params
  if (s.certs.poolParams.lookup params.operator).isSome then
    { s with certs := { s.certs with
        vrfKeyHashes := if trackVrf then announceVrfKey params s.certs else s.certs.vrfKeyHashes
        pendingRetirements := s.certs.pendingRetirements.erase params.operator
        futurePoolParams := s.certs.futurePoolParams.insert params.operator registration } }
  else
    { s with certs := { s.certs with
        vrfKeyHashes := if trackVrf then s.certs.vrfKeyHashes.insert params.vrfKeyhash 1
          else s.certs.vrfKeyHashes
        poolParams := s.certs.poolParams.insert params.operator registration
        poolDeposits := s.certs.poolDeposits.insert params.operator
          s.epochs.protocolParams.poolDeposit } }

section
variable (ctx : RuleContext)

/-- Before version 9 a registration also takes a pointer. -/
def recordPointer (certIndex : Nat) (c : Credential) (s : SubStates) : SubStates :=
  if s.epochs.protocolParams.protocolVersionMajor < 9 then
    { s with certs := { s.certs with
        pointerMap := s.certs.pointerMap.insert ⟨ctx.currentSlot, ctx.txIndex, certIndex⟩
          c.toTypedHash32 } }
  else s

/-- One certificate through the Shelley handler. A MIR certificate fills, before version 9, pots of
its own; a genesis key delegation is handled elsewhere. -/
def applyShelleyCert (certIndex : Nat) (s : SubStates) : Certificate → SubStates
  | .stakeRegistration c =>
    (s.recordPointer ctx certIndex c).registerStakeKey c s.epochs.protocolParams.keyDeposit
  | .stakeDeregistration c => s.deregisterStakeKey c s.epochs.protocolParams.keyDeposit
  | .stakeDelegation c poolHash => s.delegateStake c poolHash
  | .poolRegistration params => s.registerPool params
  | .poolRetirement poolHash epoch =>
    { s with certs := { s.certs with
        pendingRetirements := s.certs.pendingRetirements.insert poolHash epoch } }
  | _ => s

/-! ## DReps and the committee -/

/-- The epoch until which a DRep that is active now stays so. -/
def drepExpiry (s : SubStates) : Nat :=
  let base := wrapAdd ctx.currentEpoch s.epochs.protocolParams.drepActivity
  if 10 ≤ s.epochs.protocolParams.protocolVersionMajor then satSub base s.gov.numDormantEpochs
  else base

/-- Register a DRep, with nobody that delegates to it; an entry that is there is replaced. -/
def registerDRep (c : Credential) (deposit : Nat) (anchor : Option Anchor)
    (s : SubStates) : SubStates :=
  { s with gov := { s.gov with
      dreps := s.gov.dreps.insert c.toTypedHash32
        ⟨c, deposit, anchor, ctx.currentEpoch, s.drepExpiry ctx, true, ∅⟩
      drepRegistrationCount := wrapAdd s.gov.drepRegistrationCount 1 } }

end

/-- Deregister a DRep; the credentials on its list lose their delegation. -/
def deregisterDRep (c : Credential) (s : SubStates) : SubStates :=
  match s.gov.dreps.lookup c.toTypedHash32 with
  | some drep =>
    { s with gov := { s.gov with
        dreps := s.gov.dreps.erase c.toTypedHash32
        voteDelegations := s.gov.voteDelegations.retain fun k _ => k ∉ drep.delegs } }
  | none => s

variable (ctx : RuleContext)

def updateDRep (c : Credential) (anchor : Option Anchor) (s : SubStates) : SubStates :=
  let update := fun drep : DRepRegistration =>
    { drep with anchor, drepExpiry := s.drepExpiry ctx, active := true }
  { s with gov := s.gov.modifyDRep c.toTypedHash32 update }

def authoriseHotKey (cold hot : Credential) (s : SubStates) : SubStates :=
  let coldKey := cold.toTypedHash32
  { s with gov := { s.gov with
      committeeHotKeys := s.gov.committeeHotKeys.insert coldKey hot.toTypedHash32
      scriptCommitteeCredentials := if cold.isScript then
        insert coldKey s.gov.scriptCommitteeCredentials else s.gov.scriptCommitteeCredentials
      scriptCommitteeHotCredentials := if hot.isScript then
        insert coldKey s.gov.scriptCommitteeHotCredentials
        else s.gov.scriptCommitteeHotCredentials.erase coldKey } }

def resignColdKey (cold : Credential) (anchor : Option Anchor) (s : SubStates) : SubStates :=
  let coldKey := cold.toTypedHash32
  { s with gov := { s.gov with
      committeeResigned := s.gov.committeeResigned.insert coldKey anchor
      scriptCommitteeCredentials := if cold.isScript then
        insert coldKey s.gov.scriptCommitteeCredentials else s.gov.scriptCommitteeCredentials } }

/-- One certificate through the Conway handler. -/
def applyConwayCert (s : SubStates) : Certificate → SubStates
  | .conwayStakeRegistration c deposit => s.registerStakeKey c deposit
  | .conwayStakeDeregistration c refund => s.deregisterStakeKey c refund
  | .regDRep c deposit anchor => s.registerDRep ctx c deposit anchor
  | .unregDRep c _ => s.deregisterDRep c
  | .updateDRep c anchor => s.updateDRep ctx c anchor
  | .voteDelegation c drep => s.delegateVote c drep
  | .stakeVoteDelegation c poolHash drep => (s.delegateStake c poolHash).delegateVote c drep
  | .regStakeDeleg c poolHash deposit => (s.registerStakeKey c deposit).delegateStake c poolHash
  | .regStakeVoteDeleg c poolHash drep deposit =>
    ((s.registerStakeKey c deposit).delegateStake c poolHash).delegateVote c drep
  | .voteRegDeleg c drep deposit => (s.registerStakeKey c deposit).delegateVote c drep
  | .committeeHotAuth cold hot => s.authoriseHotKey cold hot
  | .committeeColdResign cold anchor => s.resignColdKey cold anchor
  | _ => s

/-- One certificate of a Conway transaction. -/
def applyCert (s : SubStates) (e : Certificate × Nat) : SubStates :=
  (s.applyShelleyCert ctx e.2 e.1).applyConwayCert ctx e.1

/-- The certificates, one after the other. -/
def applyCertList (s : SubStates) (certificates : List Certificate) : SubStates :=
  certificates.zipIdx.foldl (applyCert ctx) s

end SubStates

end Dugite
