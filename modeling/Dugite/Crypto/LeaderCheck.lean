import Dugite.Primitives.Bytes

/-!
# The exact leader check

A pool leads a slot when `p < 1 - (1 - f) ^ sigma` for its VRF value `p`, the active slot
coefficient `f` and its relative stake `sigma`. The check is done on integers of scale `10 ^ 34`:
`ln (1 - f)` by a continued fraction, the exponential by a Taylor series that stops as soon as the
comparison is decided. Division truncates towards zero, `fpScale` rounds down.

The loops of the source with an iteration bound recurse on that bound. The two loops of `findE` have
none; they take `findEFuel` rounds here, and each round of the first doubles the exponent while each
round of the second halves the gap that it left.
-/

namespace Dugite.LeaderCheck

/-- The fixed-point scale, and the number one on it. -/
def precision : Int := 10 ^ 34

def one : Int := precision

def eps : Int := 10 ^ 10

def fpDiv (x y : Int) : Int := x.tdiv y * precision + (x.tmod y * precision).tdiv y

def fpScale (x : Int) : Int :=
  if x < 0 ∧ x.tmod precision ≠ 0 then x.tdiv precision - 1 else x.tdiv precision

def ipowInner (x : Int) (n : Nat) : Int :=
  if n = 0 then one
  else if n % 2 = 0 then
    let res := ipowInner x (n / 2)
    fpScale (res * res)
  else fpScale (ipowInner x (n - 1) * x)
termination_by n

def ipow (x : Int) (n : Int) : Int :=
  if n < 0 then fpDiv one (ipowInner x n.natAbs) else ipowInner x n.natAbs

def divRoundCeil (x y : Int) : Int := if 0 ≤ x.tdiv y ∧ x.tmod y ≠ 0 then x.tdiv y + 1 else x.tdiv y

def mpExpTaylorLoop (x epsilon : Int) : Nat → Int → Int → Int → Int
  | 0, rop, _, _ => rop
  | n + 1, rop, divisor, lastX =>
    let nextX := fpDiv (fpScale (x * lastX)) divisor
    if nextX.natAbs < epsilon.natAbs then rop
    else mpExpTaylorLoop x epsilon n (rop + nextX) (divisor + one) nextX

def mpExpTaylor (maxN : Nat) (x epsilon : Int) : Int := mpExpTaylorLoop x epsilon maxN one one one

/-- `ref_exp` on a positive argument: scale into `[0, 1]`, sum the series, raise back. -/
def refExpPos (x : Int) : Int :=
  let nExponent := divRoundCeil x precision
  ipow (mpExpTaylor 1000 (x.tdiv nExponent) eps) nExponent

def refExp (x : Int) : Int :=
  if x = 0 then one
  else if x < 0 then fpDiv one (refExpPos (-x))
  else refExpPos x

/-- Euler's number on the scale. -/
def e : Int := refExp one

/-- The variables of the continued fraction loop of `mp_ln_n`. -/
structure LnState where
  n : Nat
  convergent : Int
  last : Int
  first : Bool
  (anM2 bnM2 anM1 bnM1 currA bAcc : Int)

def mpLnNLoop (x epsilon : Int) : Nat → LnState → Int
  | 0, s => s.convergent
  | fuel + 1, s =>
    let a := x * (s.currA * s.currA)
    let currA := if 1 < s.n ∧ s.n % 2 = 1 then s.currA + 1 else s.currA
    let a' := fpScale (s.bAcc * s.anM1) + fpScale (a * s.anM2)
    let b' := fpScale (s.bAcc * s.bnM1) + fpScale (a * s.bnM2)
    let convergent := fpDiv a' b'
    if s.first = false ∧ (convergent - s.last).natAbs < epsilon.natAbs then convergent
    else
      mpLnNLoop x epsilon fuel
        { n := s.n + 1, convergent, last := convergent, first := false, anM2 := s.anM1,
          bnM2 := s.bnM1, anM1 := a', bnM1 := b', currA, bAcc := s.bAcc + one }

/-- Continued fraction for `ln (1 + x)`. -/
def mpLnN (maxN : Nat) (x epsilon : Int) : Int :=
  mpLnNLoop x epsilon (maxN + 2)
    { n := 1, convergent := 0, last := 0, first := true, anM2 := one, bnM2 := 0, anM1 := 0,
      bnM1 := one, currA := 1, bAcc := one }

def findEFuel : Nat := 64

/-- Square both bounds and double both exponents until the bounds enclose `x`. -/
def findEBracket (x : Int) : Nat → Int → Int → Int → Int → Int × Int
  | 0, _, _, l, u => (l, u)
  | fuel + 1, lower, upper, l, u =>
    if x < lower ∨ upper < x then
      findEBracket x fuel (fpScale (lower * lower)) (fpScale (upper * upper)) (l * 2) (u * 2)
    else (l, u)

def findEBisect (x : Int) : Nat → Int → Int → Int
  | 0, l, _ => l
  | fuel + 1, l, u =>
    if l + 1 ≠ u then
      let mid := l + (u - l).tdiv 2
      if x < ipow e mid then findEBisect x fuel l mid else findEBisect x fuel mid u
    else l

/-- The `n` with `e ^ n ≤ x < e ^ (n + 1)`. -/
def findE (x : Int) : Int :=
  let (l, u) := findEBracket x findEFuel (fpDiv one e) e (-1) 1
  findEBisect x findEFuel l u

/-- Natural logarithm; `none` for an argument that is not positive. -/
def refLn (x : Int) : Option Int :=
  if x ≤ 0 then none
  else
    let n := findE x * precision
    some (n + mpLnN 1000 (fpDiv x (refExp n) - one) eps)

inductive ExpCmpResult where
  | gt
  | lt
  | unknown
  deriving DecidableEq

def refExpCmpLoop (x boundX compare : Int) : Nat → Int → Int → Int → ExpCmpResult
  | 0, _, _, _ => .unknown
  | n + 1, rop, divisor, error =>
    if error.natAbs < eps.natAbs then .unknown
    else
      let divisor := divisor + one
      let error' := fpDiv (fpScale (error * x)) divisor
      let rop := rop + error
      if rop + error' * boundX < compare then .gt
      else if compare < rop - error' * boundX then .lt
      else refExpCmpLoop x boundX compare n rop divisor error'

/-- Compare `compare` with the exponential of `x`. -/
def refExpCmp (maxN : Nat) (x boundX compare : Int) : ExpCmpResult :=
  refExpCmpLoop x boundX compare maxN one one x

section
variable (vrfOutput : Bytes) (sigmaNum sigmaDen fNum fDen : Nat)

/-- The leader check on exact rationals `sigmaNum / sigmaDen` and `fNum / fDen`; `tpraos` chooses
between the 64-byte raw output below `2 ^ 512` and the 32-byte leader value below `2 ^ 256`. -/
def checkLeaderValueAllRational (tpraos : Bool) : Bool :=
  if sigmaNum = 0 ∨ sigmaDen = 0 then false
  else if fDen = 0 ∨ fDen ≤ fNum then true
  else
    let certNatMax : Int := if tpraos then 2 ^ 512 else 2 ^ 256
    let certNat : Int := ofBeBytes (vrfOutput.take (if tpraos then 64 else 32))
    let q := certNatMax - certNat
    if q ≤ 0 then false
    else
      let recipQ := fpDiv certNatMax q
      let oneMinusF := ((fDen - fNum : Nat) * precision).tdiv fDen
      let c := -(refLn oneMinusF).getD 0
      let sigma := (sigmaNum * precision).tdiv sigmaDen
      refExpCmp 1000 (fpScale (sigma * c)) 3 recipQ == .lt

/-- Praos: a 32-byte leader value. -/
def checkLeaderValueFullRational : Bool :=
  checkLeaderValueAllRational vrfOutput sigmaNum sigmaDen fNum fDen false

/-- TPraos: the raw 64-byte output. -/
def checkLeaderValueTpraosRational : Bool :=
  checkLeaderValueAllRational vrfOutput sigmaNum sigmaDen fNum fDen true

end

end Dugite.LeaderCheck
