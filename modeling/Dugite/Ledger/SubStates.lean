import Dugite.Ledger.Forest
import Dugite.Ledger.Utxo
import Dugite.Validation.Context

/-!
# The sub-states of the ledger

The parts of the ledger state that transactions and the epoch boundary write, by the source's
division: the UTxO sub-state, certificates, governance, consensus and epochs. The stake
distribution and the nonces are left out: they move no coin.
-/

namespace Dugite

/-! ## Certificates -/

structure PoolRegistration where
  poolId : Hash28
  vrfKeyhash : Hash32
  (pledge cost marginNumerator marginDenominator : Nat)
  rewardAccount : Bytes
  owners : List Hash28
  relays : List Relay
  metadataUrl : Option String
  metadataHash : Option Hash32
  deriving DecidableEq

def PoolRegistration.ofParams (params : PoolParams) : PoolRegistration where
  poolId := params.operator
  vrfKeyhash := params.vrfKeyhash
  pledge := params.pledge
  cost := params.cost
  marginNumerator := params.margin.numerator
  marginDenominator := params.margin.denominator
  rewardAccount := params.rewardAccount
  owners := params.poolOwners
  relays := params.relays
  metadataUrl := params.poolMetadata.map (·.url)
  metadataHash := params.poolMetadata.map (·.hash)

structure CertSubState where
  delegations : FinMap Hash32 Hash28 := ∅
  poolParams : FinMap Hash28 PoolRegistration := ∅
  futurePoolParams : FinMap Hash28 PoolRegistration := ∅
  pendingRetirements : FinMap Hash28 Nat := ∅
  vrfKeyHashes : FinMap Hash32 Nat := ∅
  rewardAccounts : FinMap Hash32 Nat := ∅
  stakeKeyDeposits : FinMap Hash32 Nat := ∅
  poolDeposits : FinMap Hash28 Nat := ∅
  totalStakeKeyDeposits : Nat := 0
  pointerMap : FinMap Pointer Hash32 := ∅
  scriptStakeCredentials : Finset Hash32 := ∅
  pendingMirReserves : FinMap Hash32 Int := ∅
  pendingMirTreasury : FinMap Hash32 Int := ∅
  pendingMirDeltaReserves : Int := 0
  pendingMirDeltaTreasury : Int := 0

/-! ## Governance -/

structure DRepRegistration where
  credential : Credential
  deposit : Nat
  anchor : Option Anchor
  registeredEpoch : Nat
  drepExpiry : Nat
  active : Bool
  /-- The stake credentials that delegate to it. -/
  delegs : Finset Hash32
  deriving DecidableEq

structure ProposalState where
  procedure : ProposalProcedure
  (proposedEpoch expiresEpoch yesVotes noVotes abstainVotes submissionIndex : Nat)

/-- `EnactedGovTerms`: what governance is after the enactments of a plan. -/
structure EnactedGovTerms where
  committeeExpiration : FinMap Hash32 Nat := ∅
  committeeThreshold : Option Rational := none
  constitution : Option Constitution := none
  prevGovActionIds : EnactedGovRoots := {}
  deriving DecidableEq

/-- The outcome of the vote that was frozen at the last boundary, for the next one. -/
structure PulsedRatifyState where
  computedAtEpoch : Nat
  (enacted expired : List GovActionId)
  delayed : Bool
  curPparams : ProtocolParameters
  hasPparamsChanges : Bool
  enactState : EnactedGovTerms

/-- What the vote is about, frozen at the last boundary. -/
structure PulsingSnapshot where
  proposals : FinMap GovActionId ProposalState
  votesByAction : FinMap GovActionId (FinMap Voter VotingProcedure)
  committeeHotKeys : FinMap Hash32 Hash32
  committeeExpiration : FinMap Hash32 Nat
  committeeResigned : FinMap Hash32 (Option Anchor)
  committeeThreshold : Option Rational
  enacted : EnactedGovRoots
  snapshotEpoch : Nat
  voteDelegations : FinMap Hash32 DRep
  treasury : Nat
  /-- The stake behind each DRep. -/
  drepDistr : FinMap Hash32 Nat
  drepExpiry : FinMap Hash32 Nat
  drepNoConfidence : Nat
  drepAbstain : Nat

structure DRepPulsingState where
  snapshot : PulsingSnapshot
  ratifyState : PulsedRatifyState

structure GovernanceState where
  dreps : FinMap Hash32 DRepRegistration := ∅
  voteDelegations : FinMap Hash32 DRep := ∅
  committeeHotKeys : FinMap Hash32 Hash32 := ∅
  committeeExpiration : FinMap Hash32 Nat := ∅
  committeeResigned : FinMap Hash32 (Option Anchor) := ∅
  scriptCommitteeCredentials : Finset Hash32 := ∅
  scriptCommitteeHotCredentials : Finset Hash32 := ∅
  proposals : FinMap GovActionId ProposalState := ∅
  votesByAction : FinMap GovActionId (FinMap Voter VotingProcedure) := ∅
  forest : ProposalForest := {}
  drepRegistrationCount : Nat := 0
  proposalCount : Nat := 0
  /-- The last enacted action of each purpose. -/
  enacted : EnactedGovRoots := {}
  constitution : Option Constitution := none
  noConfidence : Bool := false
  committeeThreshold : Option Rational := none
  lastRatified : List (GovActionId × ProposalState) := []
  lastExpired : List GovActionId := []
  lastRatifyDelayed : Bool := false
  numDormantEpochs : Nat := 0
  drepPulsingState : Option DRepPulsingState := none

/-! ## Rewards -/

/-- The stake at an epoch boundary. -/
structure StakeSnapshot where
  epoch : Nat
  delegations : FinMap Hash32 Hash28 := ∅
  poolStake : FinMap Hash28 Nat := ∅
  poolParams : FinMap Hash28 PoolRegistration := ∅
  /-- The stake of each credential that delegates. -/
  stakeDistribution : FinMap Hash32 Nat := ∅
  epochFees : Nat := 0
  epochBlockCount : Nat := 0
  epochBlocksByPool : FinMap Hash28 Nat := ∅

structure EpochSnapshots where
  mark : Option StakeSnapshot := none
  set : Option StakeSnapshot := none
  go : Option StakeSnapshot := none
  /-- The fees that the next reward update pays out. -/
  ssFee : Nat := 0
  bprevBlockCount : Nat := 0
  bprevBlocksByPool : FinMap Hash28 Nat := ∅
  rupdReady : Bool := false

/-- `PendingRewardUpdate`; `deltaReserves` is taken from the reserves. -/
structure RewardUpdate where
  rewards : FinMap Hash32 Nat := ∅
  deltaTreasury : Nat := 0
  deltaReserves : Int := 0

/-- The part of the reward update that is frozen in the middle of an epoch. -/
structure MonetaryStep where
  /-- The expansion drawn from the reserves. -/
  deltaR1 : Nat
  /-- The cut of the treasury. -/
  deltaT1 : Nat
  /-- What is left for the pools. -/
  r : Nat
  expectedBlocks : Nat
  totalStake : Nat
  deriving DecidableEq

/-- A reward that one credential earned from one pool, as a member or as the leader. -/
structure RewardEntry where
  isMember : Bool
  poolId : Hash28
  amount : Nat
  deriving DecidableEq

/-- The walk over the delegating credentials, as far as the blocks so far have taken it. -/
structure RewardFold where
  queue : List Hash32
  cursor : Nat
  acc : FinMap Hash32 (List RewardEntry)

/-! ## The whole -/

structure EpochSubState where
  treasury : Nat := 0
  reserves : Nat := 0
  protocolParams : ProtocolParameters
  snapshots : EpochSnapshots := {}
  pendingRewardUpdate : Option RewardUpdate := none
  prevProtocolParams : ProtocolParameters := protocolParams
  prevProtocolVersionMajor : Nat := protocolParams.protocolVersionMajor
  prevD : Rational := ⟨0, 1⟩
  rupdAddrsRew : Option (Finset Hash32) := none
  rupdPulserStarted : Bool := false
  rupdMonetary : Option MonetaryStep := none
  rupdFold : Option RewardFold := none

/-- The blocks of the current epoch. -/
structure ConsensusSubState where
  epochBlockCount : Nat := 0
  epochBlocksByPool : FinMap Hash28 Nat := ∅

/-- What the rules of an era may write. -/
structure SubStates where
  utxo : UtxoSubState
  certs : CertSubState := {}
  gov : GovernanceState := {}
  epochs : EpochSubState
  consensus : ConsensusSubState := {}

/-- What the rules of an era read beside the state. -/
structure RuleContext where
  params : ProtocolParameters
  (currentSlot currentEpoch txIndex : Nat)

/-! ## Where the coins are -/

namespace SubStates

variable (s : SubStates)

/-- The coins of all unspent outputs. -/
def utxoCoins : Nat := s.utxo.utxoSet.total (·.value.coin)

def rewardBalances : Nat := s.certs.rewardAccounts.total id

def stakeKeyDeposits (s : SubStates) : Nat := s.certs.stakeKeyDeposits.total id

def poolDeposits (s : SubStates) : Nat := s.certs.poolDeposits.total id

def drepDeposits : Nat := s.gov.dreps.total (·.deposit)

def proposalDeposits : Nat := s.gov.proposals.total (·.procedure.deposit)

/-- The coins in the hands of users, or held for them, and in the pots of the current epoch. -/
def circulating : Nat :=
  s.utxoCoins + s.rewardBalances + s.stakeKeyDeposits + s.poolDeposits + s.drepDeposits +
    s.proposalDeposits + s.utxo.epochFees + s.utxo.pendingDonations

end SubStates

end Dugite
