import Dugite.Ledger.SubStates
import Dugite.Validation.Accounting
import Mathlib.Data.Rat.Floor

/-!
# The reward update

`compute_reward_update`: the expansion and the fees make the pot; the treasury takes its cut; what
is left is shared among the pools by their stake, pledge and blocks, and within a pool between its
operator and its members. Shares are exact rationals and are rounded down once. The walk over the
members may have been advanced by the blocks of the epoch (`RewardFold.pulse`), and the pot may have
been fixed in the middle of the epoch (`startStepMonetary`).

Likelihoods and the unaggregated list of rewards, which move no coin, are left out.
-/

namespace Dugite

/-- The value of a parameter; a denominator of zero counts as one. -/
def Rational.toRat (r : Rational) : ℚ := r.numerator / (max r.denominator 1 : Nat)

/-- `Rat::floor_u64`. -/
def floorU64 (q : ℚ) : Nat := min ⌊q⌋₊ u64Max

/-! ## The pot -/

/-- `expected_blocks_raw`. -/
def expectedBlocksRaw (d activeSlotCoeff : Rational) (slotsPerEpoch : Nat) : Nat :=
  floorU64 ((1 - d.toRat) * activeSlotCoeff.toRat * slotsPerEpoch)

/-- Whether `d` is at least four fifths. -/
def overlayGate (d : Rational) : Bool := decide (4 * max d.denominator 1 ≤ 5 * d.numerator)

/-- What is drawn from the reserves: all of `rho` while the overlay schedule dominates, and else as
much of it as the blocks are of the expected ones. -/
def monetaryExpansion (rho d activeSlotCoeff : Rational) (reserves blocks slotsPerEpoch : Nat) :
    Nat :=
  if overlayGate d then floorU64 (rho.toRat * reserves)
  else
    let expected := max (expectedBlocksRaw d activeSlotCoeff slotsPerEpoch) 1
    floorU64 (rho.toRat * reserves * ((min blocks expected : Nat) / expected))

/-- `start_step_monetary`. -/
def startStepMonetary (rho tau d activeSlotCoeff : Rational)
    (reserves epochFees blocksMade slotsPerEpoch maxLovelaceSupply : Nat) : MonetaryStep :=
  let expansion := monetaryExpansion rho d activeSlotCoeff reserves blocksMade slotsPerEpoch
  let pot := wrapAdd expansion epochFees
  let deltaT1 := floorU64 (tau.toRat * pot)
  { deltaR1 := expansion
    deltaT1
    r := wrapSub pot deltaT1
    expectedBlocks := if overlayGate d then 0
      else max (expectedBlocksRaw d activeSlotCoeff slotsPerEpoch) 1
    totalStake := satSub maxLovelaceSupply reserves }

/-! ## The share of a pool -/

structure PoolRewardInfo where
  poolId : Hash28
  poolActiveStake : Nat
  /-- What the operator and the members share. -/
  poolReward : Nat
  (cost marginNum marginDen : Nat)
  /-- Owners are paid with the operator, not as members. -/
  ownerSet : Finset Hash32
  leader : Option (Hash32 × Nat)

/-- What the shares of all pools depend on. -/
structure PoolTerms where
  go : StakeSnapshot
  blocksByPool : FinMap Hash28 Nat
  a0 : ℚ
  (nOpt rewardPot totalStake totalActiveStake totalBlocks : Nat)
  overlay : Bool
  protocolVersionMajor : Nat
  registered : Hash32 → Bool

/-- The stake of the owners that delegate to their pool. An owner counts as often as it is listed. -/
def ownerStake (go : StakeSnapshot) (poolId : Hash28) (owners : List Hash28) : Nat :=
  owners.foldl (fun sum owner =>
    if go.delegations.lookup owner.toHash32Padded = some poolId then
      wrapAdd sum ((go.stakeDistribution.lookup owner.toHash32Padded).getD 0)
    else sum) 0

namespace PoolTerms

variable (terms : PoolTerms)

/-- The greatest reward of a pool with this stake and pledge. -/
def maxPool (stake pledge : Nat) : Nat :=
  let z0 : ℚ := 1 / terms.nOpt
  let sigma : ℚ := min (stake / terms.totalStake) z0
  let p : ℚ := min (pledge / terms.totalStake) z0
  let f4 := (z0 - sigma) / z0
  let f3 := (sigma - p * f4) / z0
  let f2 := sigma + p * terms.a0 * f3
  let f1 := terms.rewardPot / (1 + terms.a0)
  floorU64 (f1 * f2)

/-- The reward of a pool: the greatest one, by its apparent performance. -/
def poolReward (blocks stake pledge : Nat) : Nat :=
  if stake = 0 then 0
  else if terms.overlay then terms.maxPool stake pledge
  else if blocks = 0 then 0
  else
    let perf : ℚ := blocks / terms.totalBlocks * (terms.totalActiveStake / stake)
    floorU64 (perf * terms.maxPool stake pledge)

/-- The cost, the margin, and the owners' part of the rest. -/
def operatorReward (reg : PoolRegistration) (poolReward stake selfDelegated : Nat) : Nat :=
  if poolReward ≤ reg.cost then poolReward
  else
    let marginDen := max reg.marginDenominator 1
    let margin : ℚ := reg.marginNumerator / marginDen
    let oneMinusMargin : ℚ := (marginDen - reg.marginNumerator) / marginDen
    let share : ℚ := margin + oneMinusMargin * (selfDelegated / stake)
    wrapAdd reg.cost (floorU64 (share * (poolReward - reg.cost : Nat)))

/-- A pool of the snapshot. Those without blocks, without parameters, below their pledge or without
reward have no terms. Before version 7 the operator must be registered. -/
def info (poolId : Hash28) (stake : Nat) : Option PoolRewardInfo :=
  let blocks := (terms.blocksByPool.lookup poolId).getD 0
  if blocks = 0 then none
  else match terms.go.poolParams.lookup poolId with
    | none => none
    | some reg =>
      let selfDelegated := ownerStake terms.go poolId reg.owners
      let poolReward := terms.poolReward blocks stake reg.pledge
      let operator := rewardAccountToHash reg.rewardAccount
      if selfDelegated < reg.pledge then none
      else if poolReward = 0 then none
      else some
        { poolId
          poolActiveStake := stake
          poolReward
          cost := reg.cost
          marginNum := reg.marginNumerator
          marginDen := max reg.marginDenominator 1
          ownerSet := (reg.owners.map Hash28.toHash32Padded).toFinset
          leader := if 7 ≤ terms.protocolVersionMajor || terms.registered operator then
              some (operator, operatorReward reg poolReward stake selfDelegated)
            else none }

/-- `build_pool_reward_table`. -/
def table : FinMap Hash28 PoolRewardInfo := terms.go.poolStake.filterMap terms.info

end PoolTerms

/-- `member_reward`. -/
def PoolRewardInfo.memberReward (info : PoolRewardInfo) (memberStake : Nat) : Nat :=
  if memberStake = 0 ∨ info.poolActiveStake = 0 ∨ info.poolReward ≤ info.cost then 0
  else
    let oneMinusMargin : ℚ := (info.marginDen - info.marginNum) / info.marginDen
    floorU64 ((info.poolReward - info.cost : Nat) * oneMinusMargin *
      (memberStake / info.poolActiveStake))

/-! ## The walk over the members -/

abbrev RewardEntries := FinMap Hash32 (List RewardEntry)

def pushEntry (entries : RewardEntries) (cred : Hash32) (entry : RewardEntry) : RewardEntries :=
  entries.insert cred ((entries.lookup cred).getD [] ++ [entry])

structure MemberFoldCtx where
  table : FinMap Hash28 PoolRewardInfo
  delegations : FinMap Hash32 Hash28
  stake : FinMap Hash32 Nat
  protocolVersionMajor : Nat
  registered : Hash32 → Bool

/-- The reward of a member, if its pool pays it one. Before version 7 it must be registered. -/
def MemberFoldCtx.entry (ctx : MemberFoldCtx) (cred : Hash32) : Option RewardEntry := do
  let poolId ← ctx.delegations.lookup cred
  let info ← ctx.table.lookup poolId
  if cred ∈ info.ownerSet then none
  else if ctx.protocolVersionMajor ≤ 6 && !ctx.registered cred then none
  else
    let share := info.memberReward ((ctx.stake.lookup cred).getD 0)
    if 0 < share then some ⟨true, poolId, share⟩ else none

namespace RewardFold

def new (delegations : FinMap Hash32 Hash28) : RewardFold where
  queue := Listing.listed BitVec.toNat Hash32.eq_of_toNat delegations.keys
  cursor := 0
  acc := ∅

def step (ctx : MemberFoldCtx) (acc : RewardEntries) (cred : Hash32) : RewardEntries :=
  match ctx.entry cred with
  | some entry => pushEntry acc cred entry
  | none => acc

/-- Visit at most `n` more credentials. -/
def pulse (n : Nat) (ctx : MemberFoldCtx) (fold : RewardFold) : RewardFold :=
  let stop := min (fold.cursor + n) fold.queue.length
  { fold with
    cursor := stop
    acc := ((fold.queue.drop fold.cursor).take (stop - fold.cursor)).foldl (step ctx) fold.acc }

/-- Visit all that are left. -/
def complete (ctx : MemberFoldCtx) (fold : RewardFold) : RewardFold :=
  fold.pulse (fold.queue.length - fold.cursor) ctx

end RewardFold

/-! ## The whole update -/

/-- The operators of the pools of a table, as far as they earn something. -/
def addLeader (entries : RewardEntries) (e : Hash28 × PoolRewardInfo) : RewardEntries :=
  match e.2.leader with
  | some (operator, amount) =>
    if 0 < amount then pushEntry entries operator ⟨false, e.2.poolId, amount⟩ else entries
  | none => entries

/-- What a credential gets: all its rewards, or before version 3 only the first one, of an operator
before those of a member and by pool. -/
def delivered (protocolVersionMajor : Nat) (entries : List RewardEntry) : Nat :=
  if 2 < protocolVersionMajor then (entries.map (·.amount)).sum % 2 ^ 64
  else
    let sorted := entries.insertionSort fun a b =>
      toLex (a.isMember.toNat, a.poolId.toNat) ≤ toLex (b.isMember.toNat, b.poolId.toNat)
    (sorted.head?.map (·.amount)).getD 0

/-- The arguments of `compute_reward_update`. -/
structure RewardInputs where
  params : ProtocolParameters
  prevD : Rational
  prevProtocolVersionMajor : Nat
  goSnapshot : Option StakeSnapshot
  bprevBlocksByPool : FinMap Hash28 Nat
  ssFee : Nat
  reserves : Nat
  rewardAccounts : FinMap Hash32 Nat
  startstepAddrsRew : Option (Finset Hash32)
  epochLength : Nat
  maxLovelaceSupply : Nat
  /-- The pot as it was fixed in the middle of the epoch. -/
  frozenMonetary : Option MonetaryStep
  /-- The walk over the members as the blocks of the epoch left it. -/
  prepulsed : Option RewardFold

namespace RewardInputs

variable (i : RewardInputs)

def totalStake : Nat :=
  match i.frozenMonetary with
  | some step => step.totalStake
  | none => satSub i.maxLovelaceSupply i.reserves

/-- The blocks of all pools, added up on `u64`. -/
def actualBlocks : Nat := i.bprevBlocksByPool.total id % 2 ^ 64

def registered (cred : Hash32) : Bool :=
  match i.startstepAddrsRew with
  | some addrs => decide (cred ∈ addrs)
  | none => (i.rewardAccounts.lookup cred).isSome

def expansion : Nat :=
  match i.frozenMonetary with
  | some step => step.deltaR1
  | none => monetaryExpansion i.params.rho i.prevD i.params.activeSlotCoeff i.reserves
      i.actualBlocks i.epochLength

def totalRewardsAvailable : Nat := wrapAdd i.expansion i.ssFee

def treasuryCut : Nat :=
  match i.frozenMonetary with
  | some step => step.deltaT1
  | none => floorU64 (i.params.tau.toRat * i.totalRewardsAvailable)

def rewardPot : Nat :=
  match i.frozenMonetary with
  | some step => step.r
  | none => wrapSub i.totalRewardsAvailable i.treasuryCut

section
variable (go : StakeSnapshot)

/-- The stake of all pools of a snapshot. -/
def totalActiveStake : Nat := min (go.poolStake.total id) u64Max

def poolTerms : PoolTerms where
  go
  blocksByPool := i.bprevBlocksByPool
  a0 := i.params.a0.toRat
  nOpt := max i.params.nOpt 1
  rewardPot := i.rewardPot
  totalStake := i.totalStake
  totalActiveStake := totalActiveStake go
  totalBlocks := max i.actualBlocks 1
  overlay := overlayGate i.prevD
  protocolVersionMajor := i.prevProtocolVersionMajor
  registered := i.registered

def foldCtx : MemberFoldCtx where
  table := (i.poolTerms go).table
  delegations := go.delegations
  stake := go.stakeDistribution
  protocolVersionMajor := i.prevProtocolVersionMajor
  registered := i.registered

/-- All rewards: of the members, then of the operators. -/
def rewardEntries : RewardEntries :=
  let fold := (i.prepulsed.getD (.new go.delegations)).complete (i.foldCtx go)
  (Listing.entries BitVec.toNat Hash28.eq_of_toNat (i.poolTerms go).table).foldl
    addLeader fold.acc

def rewardMap : FinMap Hash32 Nat :=
  (i.rewardEntries go).filterMap fun _ entries =>
    let amount := delivered i.prevProtocolVersionMajor entries
    if 0 < amount then some amount else none

end

/-- An update that pays nobody. -/
def undistributed : RewardUpdate where
  deltaTreasury := i.treasuryCut
  deltaReserves := i.treasuryCut - i.ssFee

/-- `compute_reward_update`. -/
def computeRewardUpdate : RewardUpdate :=
  if i.totalRewardsAvailable = 0 then {}
  else if i.totalStake = 0 then i.undistributed
  else match i.goSnapshot with
    | none => i.undistributed
    | some go =>
      if totalActiveStake go = 0 then i.undistributed
      else
        let rewards := i.rewardMap go
        let totalDistributed : Nat := rewards.total id % 2 ^ 64
        { rewards
          deltaTreasury := i.treasuryCut
          deltaReserves := i.treasuryCut + totalDistributed - i.ssFee }

end RewardInputs

end Dugite
