import Dugite.Lib.Simulation
import Dugite.Plutus.PhaseTwo
import Dugite.Plutus.Term

/-!
# The CEK machine

`compute` takes a term apart under an environment and pushes frames; `returnCompute` hands a value
to the frame on top. A builtin collects forces and arguments until it has all of them and then runs
its denotation.

The tracker of the source is optional: `step` takes what charging a builtin does to a tracker of any
type, and a run without a budget has a tracker of which nothing is charged. What the builtins
compute and cost is a parameter. The log of the `trace` builtin, which no step reads, is left out,
and an error carries the id of a builtin where the source has its name.
-/

namespace Dugite.Uplc

inductive UplcError where
  | scriptError
  | budgetExhausted (cpuRemaining memRemaining : Int)
  | builtinTypeError (builtin : BuiltinId) (reason : String)
  | builtinFailure (builtin : BuiltinId) (reason : String)
  | machineError (message : String)
  | freeVariable (index : Nat)
  | internal (message : String)
  deriving DecidableEq

/-- Which meaning the builtins have, by language and protocol version. -/
inductive SemanticsVariant where
  | a | b | c | d | e
  deriving DecidableEq

namespace SemanticsVariant

def latest : SemanticsVariant := .e

def caseOnConstantAvailable : SemanticsVariant → Bool
  | .d | .e => true
  | _ => false

end SemanticsVariant

/-- An environment has the value of the innermost binder in front. -/
inductive Value where
  | const (c : Constant)
  | lambda (body : Term) (env : List Value)
  | delay (body : Term) (env : List Value)
  | builtin (id : BuiltinId) (forces : Nat) (args : List Value)
  | constr (tag : Nat) (args : List Value)

abbrev Env := List Value

/-- A one-based lookup. -/
def Env.lookup (env : Env) (index : Nat) : Except UplcError Value :=
  if index = 0 then
    .error (.machineError "CEK env: De Bruijn index 0 is the free-variable sentinel")
  else match env[index - 1]? with
    | some v => .ok v
    | none => .error (.machineError ("CEK env: De Bruijn index " ++ toString index ++
        " out of range (env depth " ++ toString env.length ++ ")"))

inductive Frame where
  | awaitArg (function : Value) (env : Env)
  | awaitFunTerm (argument : Term) (env : Env)
  | force
  | applyValue (argument : Value)
  /-- The arguments still to be evaluated, the next one in front, and those that have been. -/
  | constr (tag : Nat) (pending : List Term) (evaluated : List Value) (env : Env)
  | cases (branches : List Term) (env : Env)

/-- The top is in front. -/
abbrev Kont := List Frame

inductive State where
  | compute (term : Term) (env : Env) (kont : Kont)
  | ret (value : Value) (kont : Kont)
  | done (value : Value)

/-! ## The texts of errors -/

/-- How the source prints the constructor of a value. -/
def Value.discriminant : Value → String
  | .const _ => "Discriminant(0)"
  | .lambda _ _ => "Discriminant(1)"
  | .delay _ _ => "Discriminant(2)"
  | .builtin _ _ _ => "Discriminant(3)"
  | .constr _ _ => "Discriminant(4)"

def Constant.discriminant : Constant → String
  | .integer _ => "Discriminant(0)"
  | .byteString _ => "Discriminant(1)"
  | .string _ => "Discriminant(2)"
  | .unit => "Discriminant(3)"
  | .bool _ => "Discriminant(4)"
  | .protoList _ _ => "Discriminant(5)"
  | .protoPair _ _ _ _ => "Discriminant(6)"
  | .data _ => "Discriminant(7)"
  | .bls12_381G1Element _ => "Discriminant(8)"
  | .bls12_381G2Element _ => "Discriminant(9)"
  | .bls12_381MlResult _ => "Discriminant(10)"
  | .array _ _ => "Discriminant(11)"
  | .value _ => "Discriminant(12)"

/-! ## The steps -/

/-- What the builtins compute. -/
abbrev Denotation := SemanticsVariant → BuiltinId → List Value → Except UplcError Value

/-- What becomes of a tracker when a builtin with these arguments is charged. -/
abbrev Charge (τ : Type) := SemanticsVariant → BuiltinId → List Value → τ → Except UplcError τ

section Steps
variable {τ : Type} (denote : Denotation) (charge : Charge τ) (variant : SemanticsVariant)

/-- The branch that a constant selects, the values it is applied to, and how many branches there may
be. -/
def projectConstant (branchCount : Nat) : Constant → Except UplcError (Nat × List Value × Option Nat)
  | .bool false => .ok (0, [], some 2)
  | .bool true => .ok (1, [], some 2)
  | .unit => .ok (0, [], some 1)
  | .protoList _ [] => .ok (1, [], some 2)
  | .protoList elemType (head :: tail) =>
    .ok (0, [.const head, .const (.protoList elemType tail)], some 2)
  | .protoPair _ _ a b => .ok (0, [.const a, .const b], some 1)
  | .integer n =>
    if 0 ≤ n ∧ n.toNat < branchCount then .ok (n.toNat, [], none)
    else .error .scriptError
  | c => .error (.machineError ("case on non-enumerable constant: " ++ c.discriminant))

def projectScrutinee (branchCount : Nat) : Value → Except UplcError (Nat × List Value × Option Nat)
  | .constr tag args => .ok (tag, args, none)
  | .const c =>
    if variant.caseOnConstantAvailable then projectConstant branchCount c else .error .scriptError
  | v => .error (.machineError
      ("Case scrutinee must reduce to Constr or enumerable Constant, got " ++ v.discriminant))

/-- `apply_builtin`. -/
def applyBuiltin (id : BuiltinId) (forces : Nat) (args : List Value) (arg : Value) (tracker : τ) :
    Except UplcError (Value × τ) :=
  let (requiredForces, requiredArity) := arityOf id
  if forces < requiredForces then
    .error (.builtinTypeError id ("argument applied before required force count satisfied (got " ++
      toString forces ++ " forces, want " ++ toString requiredForces ++ ")"))
  else
    let args := args ++ [arg]
    let argCount := args.length % 256
    if argCount < requiredArity then .ok (.builtin id forces args, tracker)
    else if requiredArity < argCount then
      .error (.builtinTypeError id ("over-application: builtin has arity " ++
        toString requiredArity ++ " but received " ++ toString argCount ++ " arguments"))
    else do
      let tracker ← charge variant id args tracker
      let value ← denote variant id args
      return (value, tracker)

/-- `force_builtin`, with the excess of forces reported where its caller does. -/
def forceBuiltin (id : BuiltinId) (forces : Nat) (args : List Value) (tracker : τ) :
    Except UplcError (Value × τ) :=
  let (requiredForces, requiredArity) := arityOf id
  if forces < requiredForces then
    if forces + 1 = requiredForces ∧ requiredArity = 0 then do
      let tracker ← charge variant id [] tracker
      let value ← denote variant id []
      return (value, tracker)
    else .ok (.builtin id (forces + 1) args, tracker)
  else .error (.builtinTypeError id "excess force on already-saturated builtin")

def apply (function argument : Value) (kont : Kont) (tracker : τ) : Except UplcError (State × τ) :=
  match function with
  | .lambda body env => .ok (.compute body (argument :: env) kont, tracker)
  | .builtin id forces args => do
    let (value, tracker) ← applyBuiltin denote charge variant id forces args argument tracker
    return (.ret value kont, tracker)
  | v => .error (.machineError ("applied non-function value: " ++ v.discriminant))

def forceValue (value : Value) (kont : Kont) (tracker : τ) : Except UplcError (State × τ) :=
  match value with
  | .delay body env => .ok (.compute body env kont, tracker)
  | .builtin id forces args => do
    let (value, tracker) ← forceBuiltin denote charge variant id forces args tracker
    return (.ret value kont, tracker)
  | v => .error (.machineError ("force applied to non-Delay value: " ++ v.discriminant))

def compute (term : Term) (env : Env) (kont : Kont) : Except UplcError State :=
  match term with
  | .var i => (env.lookup i).map (.ret · kont)
  | .lam body => .ok (.ret (.lambda body env) kont)
  | .app f arg => .ok (.compute f env (.awaitFunTerm arg env :: kont))
  | .const c => .ok (.ret (.const c) kont)
  | .delay body => .ok (.ret (.delay body env) kont)
  | .force body => .ok (.compute body env (.force :: kont))
  | .error => .error .scriptError
  | .builtin id =>
    if arityOf id = (0, 0) then
      .error (.internal
        "builtin has zero forces+arity; no on-chain denotation should match this shape")
    else .ok (.ret (.builtin id 0 []) kont)
  | .constr tag [] => .ok (.ret (.constr tag []) kont)
  | .constr tag (first :: pending) => .ok (.compute first env (.constr tag pending [] env :: kont))
  | .case scrutinee branches => .ok (.compute scrutinee env (.cases branches env :: kont))

/-- The value goes to the frame on top. -/
def returnCompute (value : Value) (kont : Kont) (tracker : τ) : Except UplcError (State × τ) :=
  match kont with
  | [] => .ok (.done value, tracker)
  | .awaitFunTerm argument env :: kont =>
    .ok (.compute argument env (.awaitArg value env :: kont), tracker)
  | .awaitArg function _ :: kont => apply denote charge variant function value kont tracker
  | .force :: kont => forceValue denote charge variant value kont tracker
  | .applyValue argument :: kont => apply denote charge variant value argument kont tracker
  | .constr tag [] evaluated _ :: kont => .ok (.ret (.constr tag (evaluated ++ [value])) kont, tracker)
  | .constr tag (next :: pending) evaluated env :: kont =>
    .ok (.compute next env (.constr tag pending (evaluated ++ [value]) env :: kont), tracker)
  | .cases branches env :: kont => do
    let (tag, payload, maxBranches) ← projectScrutinee variant branches.length value
    if maxBranches.any (· < branches.length) then .error .scriptError
    else match branches[tag]? with
      | none => .error .scriptError
      | some branch => .ok (.compute branch env (payload.map .applyValue ++ kont), tracker)

def step (state : State) (tracker : τ) : Except UplcError (State × τ) :=
  match state with
  | .compute term env kont => (compute term env kont).map (·, tracker)
  | .ret value kont => returnCompute denote charge variant value kont tracker
  | .done _ => .error (.internal "step called on Done state")

end Steps

/-! ## Running it -/

def initial (term : Term) : State := .compute term [] []

/-- Without a budget nothing is charged. -/
def freeCharge : Charge Unit := fun _ _ _ _ => .ok ()

section Run
variable (denote : Denotation) (variant : SemanticsVariant)

def freeStep (state : State) : Except UplcError State :=
  (step denote freeCharge variant state ()).map (·.1)

/-- One turn of the loop. -/
def freeLoop (state : State) : State ⊕ Except UplcError Value :=
  match freeStep denote variant state with
  | .error e => .inr (.error e)
  | .ok (.done v) => .inr (.ok v)
  | .ok state => .inl state

/-- `evaluate` returns with this result; it has a loop that need not end. -/
def Evaluates (term : Term) (result : Except UplcError Value) : Prop :=
  Simulation.Halts (freeLoop denote variant) (initial term) result

end Run

end Dugite.Uplc
