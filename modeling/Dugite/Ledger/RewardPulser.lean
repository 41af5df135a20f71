import Dugite.Ledger.RewardUpdate

/-!
# The reward update, begun before the boundary

Two parts of a reward update are worked out while the epoch runs. At the `4k/f` mark the pot is
fixed, and from then on each block takes the walk over the members one pulse further
(`pulseRupdMemberFold`). Neither shows in the update: the boundary has a second copy of the
arithmetic of the pot, which gives the same (`boundaryStep_eq`), and it finishes the walk wherever
the blocks have left it (`pulsed_eq_batch`).

The snapshot of the pulser that queries encode is left out. No reward is read from it.
-/

namespace Dugite

open RewardInputs RewardFold

/-! ## The pot -/

/-- `Rat::from_i128`. -/
def ratOf (num den : Int) : ℚ := num / den

/-- The part of `compute_reward_update` that `start_step_monetary` anticipates. -/
structure BoundaryStep where
  (expansion treasuryCut rewardPot : Nat)

/-- The expansion, the treasury's cut and the pot as `compute_reward_update` works them out when
nothing has been fixed. -/
def RewardInputs.boundaryStep (i : RewardInputs) : BoundaryStep :=
  let rho := ratOf i.params.rho.numerator (max i.params.rho.denominator 1 : Nat)
  let dNum : Int := i.prevD.numerator
  let dDen : Int := (max i.prevD.denominator 1 : Nat)
  let expansion :=
    if 5 * dNum ≥ 4 * dDen then floorU64 (rho * ratOf i.reserves 1)
    else
      let rawExpectedBlocks := expectedBlocksRaw i.prevD i.params.activeSlotCoeff i.epochLength
      let expectedBlocks := max rawExpectedBlocks 1
      let effectiveBlocks := min i.actualBlocks expectedBlocks
      floorU64 (rho * ratOf i.reserves 1 * ratOf effectiveBlocks expectedBlocks)
  let totalRewardsAvailable := wrapAdd expansion i.ssFee
  -- the early return of the source, with nothing for the treasury and nothing for the pools
  if totalRewardsAvailable = 0 then ⟨expansion, 0, 0⟩
  else
    let treasuryCut := floorU64 (ratOf i.params.tau.numerator (max i.params.tau.denominator 1 : Nat)
      * ratOf totalRewardsAvailable 1)
    ⟨expansion, treasuryCut, wrapSub totalRewardsAvailable treasuryCut⟩

theorem ratOf_toRat (r : Rational) : ratOf r.numerator (max r.denominator 1 : Nat) = r.toRat := by
  rw [ratOf, Rational.toRat, Int.cast_natCast, Int.cast_natCast]

theorem ratOf_natCast (n : Nat) : ratOf n 1 = n := by
  rw [ratOf, Int.cast_natCast, Int.cast_one, div_one]

theorem overlayGate_iff (d : Rational) : overlayGate d = true ↔
      5 * (d.numerator : Int) ≥ 4 * ((max d.denominator 1 : Nat) : Int) := by
  rw [overlayGate, decide_eq_true_iff]
  omega

namespace RewardInputs

/-- The two copies agree, and a step that was fixed with the amounts of the second copy, and with
the blocks and the stake of the boundary, leaves the update as it is. The cut and the pot make up what is available as long as the treasury takes no
more than all of it and the sum fits, and the expansion is no more than the reserves as long as
`rho` is a proportion. -/
theorem boundaryStep_eq (i : RewardInputs) :
    i.boundaryStep = ⟨i.startStep.deltaR1, i.startStep.deltaT1, i.startStep.r⟩ ∧
    (∀ step : MonetaryStep, ⟨step.deltaR1, step.deltaT1, step.r⟩ = i.boundaryStep →
      step.expectedBlocks = i.startStep.expectedBlocks → step.totalStake = i.startStep.totalStake →
      ({ i with frozenMonetary := some step } : RewardInputs).computeRewardUpdate =
        ({ i with frozenMonetary := none } : RewardInputs).computeRewardUpdate) ∧
    (i.params.tau.toRat ≤ 1 → i.startStep.deltaR1 + i.ssFee ≤ u64Max →
      i.startStep.r + i.startStep.deltaT1 = i.startStep.deltaR1 + i.ssFee) ∧
    (i.params.rho.toRat ≤ 1 → i.startStep.deltaR1 ≤ i.reserves) := by
  have hcopy : i.boundaryStep = ⟨i.startStep.deltaR1, i.startStep.deltaT1, i.startStep.r⟩ := by
    have hexpansion : (if 5 * (i.prevD.numerator : Int) ≥
          4 * ((max i.prevD.denominator 1 : Nat) : Int) then
        floorU64 (i.params.rho.toRat * i.reserves)
      else floorU64 (i.params.rho.toRat * i.reserves *
        ratOf (min i.actualBlocks (max (expectedBlocksRaw i.prevD i.params.activeSlotCoeff
          i.epochLength) 1) : Nat) (max (expectedBlocksRaw i.prevD i.params.activeSlotCoeff
          i.epochLength) 1 : Nat))) = i.startStep.deltaR1 := by
      simp only [startStep, startStepMonetary, monetaryExpansion, overlayGate_iff, ratOf,
        Int.cast_natCast]
    simp only [boundaryStep, ratOf_toRat, ratOf_natCast, hexpansion]
    split
    · next hzero =>
      simp only [startStep, startStepMonetary] at hzero ⊢
      rw [hzero]
      simp [floorU64, wrapSub]
    · rfl
  refine ⟨hcopy, fun step hamounts hblocks hstake => ?_, ?_, ?_⟩
  · rw [hcopy, BoundaryStep.mk.injEq] at hamounts
    obtain ⟨hexpansion, hcut, hpot⟩ := hamounts
    have hstep : step = i.startStep := by
      cases step
      dsimp only at hexpansion hcut hpot hblocks hstake
      rw [hexpansion, hcut, hpot, hblocks, hstake]
    rw [hstep]
    rfl
  · exact fun htau hfit => wrapSub_cut htau hfit
  · exact fun hrho => monetaryExpansion_le hrho _ _ _ _ _

theorem solo_boundaryStep : (soloInputs [7]).startStep.deltaR1 = 100 ∧
    (soloInputs [7]).startStep.r + (soloInputs [7]).startStep.deltaT1 =
      (soloInputs [7]).startStep.deltaR1 + (soloInputs [7]).ssFee :=
  ⟨by decide +kernel, (boundaryStep_eq (soloInputs [7])).2.2.1
    (show (Rational.toRat ⟨1, 4⟩ : ℚ) ≤ 1 by decide +kernel) (by decide +kernel)⟩

/-- The parameter updates before Conway are not held to proportions. -/
theorem expansion_exceeds_reserves :
    (startStepMonetary ⟨2, 1⟩ ⟨0, 1⟩ ⟨1, 1⟩ ⟨1, 1⟩ 100 0 1 1 200).deltaR1 = 200 := by
  decide +kernel

end RewardInputs

/-! ## The pulses -/

/-- The walk that is under way, with the terms of the pools that it reads. -/
structure InFlightFold where
  table : FinMap Hash28 PoolRewardInfo := ∅
  fold : Option RewardFold := none

def RewardFold.isDone (fold : RewardFold) : Bool := decide (fold.queue.length ≤ fold.cursor)

def RewardFold.pulseSize (numCredentials securityParam : Nat) : Nat :=
  let denom := max (4 * securityParam % 2 ^ 64) 1
  max ((numCredentials + denom - 1) / denom) 1

def InFlightFold.isComplete (inFlight : InFlightFold) : Bool := inFlight.fold.any isDone

/-- What the boundary brings to the reward update beside the state of the epoch. -/
structure RewardBoundary where
  rewardAccounts : FinMap Hash32 Nat
  epochLength : Nat
  maxLovelaceSupply : Nat

namespace EpochSubState

variable (epochs : EpochSubState)

/-- The snapshot that rewards are paid from; before there is one it counts as empty. -/
def goOrEmpty : StakeSnapshot := epochs.snapshots.go.getD { epoch := 0 }

/-- Whether the walk takes a credential for registered. -/
def rupdRegistered (cred : Hash32) : Bool := epochs.rupdAddrsRew.all fun set => decide (cred ∈ set)

/-- What the terms of the pools are built from at the mark. -/
def rupdTerms (monetary : MonetaryStep) : PoolTerms where
  go := epochs.goOrEmpty
  blocksByPool := epochs.snapshots.bprevBlocksByPool
  a0 := epochs.prevProtocolParams.a0.toRat
  nOpt := max epochs.prevProtocolParams.nOpt 1
  rewardPot := monetary.r
  totalStake := monetary.totalStake
  totalActiveStake := totalActiveStake epochs.goOrEmpty
  totalBlocks := max (epochs.snapshots.bprevBlocksByPool.total id % 2 ^ 64) 1
  overlay := overlayGate epochs.prevD
  protocolVersionMajor := epochs.prevProtocolVersionMajor
  registered := epochs.rupdRegistered

def rupdCtx (table : FinMap Hash28 PoolRewardInfo) : MemberFoldCtx where
  table
  delegations := epochs.goOrEmpty.delegations
  stake := epochs.goOrEmpty.stakeDistribution
  protocolVersionMajor := epochs.prevProtocolVersionMajor
  registered := epochs.rupdRegistered

/-- `pulse_rupd_member_fold`, for one block. The first call after the mark builds the walk and does
not advance it. -/
def pulseRupdMemberFold (securityParam : Nat) (inFlight : InFlightFold) : InFlightFold :=
  match epochs.rupdMonetary with
  | none => inFlight
  | some monetary =>
    if inFlight.isComplete then inFlight
    else if epochs.prevProtocolVersionMajor ≤ 6 ∧ epochs.rupdAddrsRew = none then inFlight
    else match inFlight.fold with
      | none =>
        { table := (epochs.rupdTerms monetary).table
          fold := some (.new epochs.goOrEmpty.delegations) }
      | some fold =>
        let n := pulseSize epochs.goOrEmpty.delegations.keys.card securityParam
        { inFlight with fold := some (fold.pulse n (epochs.rupdCtx inFlight.table)) }

/-- The arguments that the boundary passes to `compute_reward_update`. -/
def rewardInputs (boundary : RewardBoundary) (prepulsed : Option RewardFold) : RewardInputs where
  params := epochs.prevProtocolParams
  prevD := epochs.prevD
  prevProtocolVersionMajor := epochs.prevProtocolVersionMajor
  goSnapshot := epochs.snapshots.go
  bprevBlocksByPool := epochs.snapshots.bprevBlocksByPool
  ssFee := epochs.snapshots.ssFee
  reserves := epochs.reserves
  rewardAccounts := boundary.rewardAccounts
  startstepAddrsRew := epochs.rupdAddrsRew
  epochLength := boundary.epochLength
  maxLovelaceSupply := boundary.maxLovelaceSupply
  frozenMonetary := epochs.rupdMonetary
  prepulsed

end EpochSubState

/-- What happens to the walk between the mark and the boundary: the pulse of a block, a pulse of any
size, or a restart, which loses it. -/
inductive PulserEvent where
  | block (securityParam : Nat)
  | pulse (n : Nat)
  | restart

def EpochSubState.pulserStep (epochs : EpochSubState) (inFlight : InFlightFold) :
    PulserEvent → InFlightFold
  | .block securityParam => epochs.pulseRupdMemberFold securityParam inFlight
  | .pulse n =>
    { inFlight with fold := inFlight.fold.map (·.pulse n (epochs.rupdCtx inFlight.table)) }
  | .restart => {}

def EpochSubState.pulserRun (epochs : EpochSubState) (events : List PulserEvent) : InFlightFold :=
  events.foldl epochs.pulserStep {}

/-- An operator's reward is listed whatever it amounts to. -/
def addRawLeader (entries : RewardEntries) (e : Hash28 × PoolRewardInfo) : RewardEntries :=
  match e.2.leader with
  | some (operator, amount) => pushEntry entries operator ⟨false, e.2.poolId, amount⟩
  | none => entries

/-- `raw_rewards` of the update: what each credential earned from each pool. The operators' rewards
come last, in the order in which the table of the pools lists them. -/
def RewardInputs.rawRewards (i : RewardInputs) (order : Listing.Enumeration Hash28) :
    RewardEntries :=
  if i.totalRewardsAvailable = 0 ∨ i.totalStake = 0 then ∅
  else match i.goSnapshot with
    | none => ∅
    | some go =>
      if totalActiveStake go = 0 then ∅
      else
        let fold := (i.prepulsed.getD (.new go.delegations)).complete (i.foldCtx go)
        (order.entries (i.poolTerms go).table).foldl addRawLeader fold.acc

/-- What an operator's reward adds to the entries of a credential. -/
def leaderEntry (cred : Hash32) (e : Hash28 × PoolRewardInfo) : Option RewardEntry :=
  e.2.leader.bind fun (operator, amount) =>
    if cred = operator then some ⟨false, e.2.poolId, amount⟩ else none

/-- Each credential gets the entries of the pools it operates, after those it has. -/
theorem getD_foldl_addRawLeader (cred : Hash32) (pools : List (Hash28 × PoolRewardInfo))
    (entries : RewardEntries) :
    ((pools.foldl addRawLeader entries).lookup cred).getD [] =
      (entries.lookup cred).getD [] ++ pools.filterMap (leaderEntry cred) := by
  induction pools generalizing entries with
  | nil => rw [List.foldl_nil, List.filterMap_nil, List.append_nil]
  | cons e pools ih =>
    rw [List.foldl_cons, ih, List.filterMap_cons, leaderEntry, addRawLeader]
    cases e.2.leader with
    | none => rfl
    | some leader =>
    obtain ⟨operator, amount⟩ := leader
    by_cases hcred : cred = operator
    · subst hcred
      simp [pushEntry]
    · simp [pushEntry, hcred, Finmap.lookup_insert_of_ne]

/-- The order of the table shows in the order of a credential's entries only. -/
theorem RewardInputs.rawRewards_perm (i : RewardInputs) (order order' : Listing.Enumeration Hash28)
    (cred : Hash32) :
    (((i.rawRewards order).lookup cred).getD []).Perm
      (((i.rawRewards order').lookup cred).getD []) := by
  unfold rawRewards
  split
  · exact .refl _
  split
  · exact .refl _
  split
  · exact .refl _
  rw [getD_foldl_addRawLeader, getD_foldl_addRawLeader]
  exact ((order.entries_perm order' _).filterMap _).append_left _

/-! ## The walk of the blocks is the walk of the boundary -/

variable {registered : Hash32 → Bool}

/-- From version 7 on nobody asks whether an operator is registered. -/
theorem PoolTerms.table_registered (terms : PoolTerms)
    (h : 7 ≤ terms.protocolVersionMajor ∨ terms.registered = registered) :
    ({ terms with registered } : PoolTerms).table = terms.table := by
  rcases h with hversion | rfl
  · have hinfo : ({ terms with registered } : PoolTerms).info = terms.info := by
      funext poolId stake
      simp only [info, poolReward, maxPool, hversion, decide_true, Bool.true_or]
    rw [table, hinfo]
    rfl
  · rfl

theorem MemberFoldCtx.entry_registered (ctx : MemberFoldCtx)
    (h : 7 ≤ ctx.protocolVersionMajor ∨ ctx.registered = registered) :
    ({ ctx with registered } : MemberFoldCtx).entry = ctx.entry := by
  rcases h with hversion | rfl
  · have hnew : ¬ ctx.protocolVersionMajor ≤ 6 := by omega
    funext cred
    simp only [entry, hnew, decide_false, Bool.false_and]
  · rfl

/-- Of a walk the update reads what it leaves when it is finished. -/
theorem RewardInputs.update_prepulsed {i : RewardInputs} {prepulsed : Option RewardFold}
    (h : ∀ go, i.goSnapshot = some go →
      ((prepulsed.getD (.new go.delegations)).complete (i.foldCtx go)).acc =
        ((i.prepulsed.getD (.new go.delegations)).complete (i.foldCtx go)).acc) :
    ({ i with prepulsed } : RewardInputs).computeRewardUpdate = i.computeRewardUpdate ∧
      ({ i with prepulsed } : RewardInputs).rawRewards = i.rawRewards := by
  rw [funext_iff (f := ({ i with prepulsed } : RewardInputs).rawRewards)]
  cases hgo : i.goSnapshot with
  | none =>
    simp only [computeRewardUpdate, rawRewards, hgo]
    exact ⟨rfl, fun _ => rfl⟩
  | some go =>
  have hmap : ({ i with prepulsed } : RewardInputs).rewardMap go = i.rewardMap go := by
    have hentries : ({ i with prepulsed } : RewardInputs).rewardEntries go = i.rewardEntries go :=
      congrArg (List.foldl addLeader · _) (h go hgo)
    rw [rewardMap, rewardMap, hentries]
  have hraw (order : Listing.Enumeration Hash28) := congrArg
    (List.foldl addRawLeader · (order.entries (i.poolTerms go).table)) (h go hgo)
  constructor
  · simp only [hgo] at hmap
    simp only [computeRewardUpdate, hgo, hmap]
    rfl
  · intro order
    simp only [rawRewards, hgo]
    exact if_congr Iff.rfl rfl (if_congr Iff.rfl rfl (hraw order))

namespace EpochSubState

variable {epochs : EpochSubState} {boundary : RewardBoundary} {inFlight : InFlightFold}

/-- What the boundary reads when it finishes the walk. -/
def boundaryCtx (epochs : EpochSubState) (boundary : RewardBoundary) : MemberFoldCtx :=
  (epochs.rewardInputs boundary none).foldCtx epochs.goOrEmpty

/-- A walk that has begun has the boundary's terms and agrees with it on who is registered, and it
has gone some way. -/
def OnCourse (epochs : EpochSubState) (ctx : MemberFoldCtx) (inFlight : InFlightFold) : Prop :=
  ∀ fold, inFlight.fold = some fold → Pulsed ctx fold ∧ inFlight.table = ctx.table ∧
    (7 ≤ epochs.prevProtocolVersionMajor ∨ ctx.registered = epochs.rupdRegistered)

/-- A walk is only begun once it is settled who counts as registered. -/
theorem registered_eq (h : ¬ (epochs.prevProtocolVersionMajor ≤ 6 ∧ epochs.rupdAddrsRew = none)) :
    7 ≤ epochs.prevProtocolVersionMajor ∨
      (epochs.boundaryCtx boundary).registered = epochs.rupdRegistered := by
  cases haddrs : epochs.rupdAddrsRew with
  | none =>
    have hversion : ¬ epochs.prevProtocolVersionMajor ≤ 6 := fun hle => h ⟨hle, haddrs⟩
    exact .inl (by omega)
  | some set =>
    refine .inr (funext fun cred => ?_)
    simp only [rupdRegistered, boundaryCtx, foldCtx, registered,
      rewardInputs, haddrs, Option.all_some]

theorem rupdTerms_table {monetary : MonetaryStep} (hmonetary : epochs.rupdMonetary = some monetary)
    (hregistered : 7 ≤ epochs.prevProtocolVersionMajor ∨
      (epochs.boundaryCtx boundary).registered = epochs.rupdRegistered) :
    (epochs.rupdTerms monetary).table = (epochs.boundaryCtx boundary).table := by
  have hterms : ({ epochs.rupdTerms monetary with
      registered := (epochs.boundaryCtx boundary).registered } : PoolTerms) =
      (epochs.rewardInputs boundary none).poolTerms epochs.goOrEmpty := by
    simp only [poolTerms, rewardPot, totalStake, rewardInputs, hmonetary]
    rfl
  rw [← PoolTerms.table_registered (epochs.rupdTerms monetary)
    (hregistered.imp_right Eq.symm), hterms]
  rfl

theorem onCourse_step (h : epochs.OnCourse (epochs.boundaryCtx boundary) inFlight)
    (event : PulserEvent) :
    epochs.OnCourse (epochs.boundaryCtx boundary) (epochs.pulserStep inFlight event) := by
  have hpulse : ∀ n fold, inFlight.fold = some fold → epochs.OnCourse (epochs.boundaryCtx boundary)
        { inFlight with fold := some (fold.pulse n (epochs.rupdCtx inFlight.table)) } := by
    rintro n fold hfold _ ⟨⟩
    obtain ⟨hpulsed, htable, hregistered⟩ := h fold hfold
    rw [htable]
    refine ⟨?_, rfl, hregistered⟩
    have hentry : (epochs.rupdCtx (epochs.boundaryCtx boundary).table).entry =
        (epochs.boundaryCtx boundary).entry :=
      (MemberFoldCtx.entry_registered _ (hregistered.imp_right Eq.symm)).symm
    have hstep : step (epochs.rupdCtx (epochs.boundaryCtx boundary).table) =
        step (epochs.boundaryCtx boundary) := by
      funext acc cred
      rw [step, step, hentry]
    rw [pulse, hstep]
    exact hpulsed.pulse n
  cases event with
  | restart => rintro fold ⟨⟩
  | pulse n =>
    cases hfold : inFlight.fold with
    | none =>
      rw [pulserStep, hfold]
      rintro fold ⟨⟩
    | some fold =>
      rw [pulserStep, hfold]
      exact hpulse n fold hfold
  | block securityParam =>
    rw [pulserStep, pulseRupdMemberFold]
    split
    · exact h
    next monetary hmonetary =>
    split
    · exact h
    split
    · exact h
    next hsettled =>
    split
    · -- the call that builds the walk
      rintro _ ⟨⟩
      exact ⟨.new, rupdTerms_table hmonetary (registered_eq hsettled), registered_eq hsettled⟩
    · next fold hfold => exact hpulse _ fold hfold

/-- However the blocks have split the work, and however often it was lost, the boundary arrives at
the update of a walk that it makes alone, and the order of the table of the pools only shows in the
order of the entries of a credential. -/
theorem pulsed_eq_batch (epochs : EpochSubState) (events : List PulserEvent)
    (boundary : RewardBoundary) :
    let inputs := epochs.rewardInputs boundary
    (inputs (epochs.pulserRun events).fold).computeRewardUpdate =
      (inputs none).computeRewardUpdate ∧
    (inputs (epochs.pulserRun events).fold).rawRewards = (inputs none).rawRewards ∧
    ∀ order order' cred, (((inputs none).rawRewards order).lookup cred |>.getD []).Perm
      (((inputs none).rawRewards order').lookup cred |>.getD []) := by
  rw [← and_assoc]
  refine ⟨update_prepulsed (i := epochs.rewardInputs boundary none) fun go hgo => ?_,
    rawRewards_perm _⟩
  have hcourse : epochs.OnCourse (epochs.boundaryCtx boundary)
    (epochs.pulserRun events) := by
      induction events using List.reverseRecOn with
      | nil => exact fun fold hfold => nomatch hfold
      | append_singleton events event ih =>
        rw [pulserRun, List.foldl_append]
        exact onCourse_step ih event
  rw [boundaryCtx, goOrEmpty, show epochs.snapshots.go = some go from hgo] at hcourse
  cases hfold : (epochs.pulserRun events).fold with
  | none => rfl
  | some fold => exact (hcourse fold hfold).1.complete_acc.trans (Pulsed.complete_acc .new).symm

end EpochSubState

end Dugite
