import Dugite.Lib.Checks
import Dugite.Lib.Journal
import Dugite.Primitives.Transaction

/-!
# Transactions on the UTxO set

What each era's rules do to the UTxO sub-state, and the per-transaction diff they return: spending
and producing outputs for a valid transaction, consuming collateral for a phase-2-invalid one, the
Byron path with its two modes, and the sub-transactions of the Dijkstra era with their two passes.
The stake distribution that the same functions keep beside the set is not part of this model.
-/

namespace Dugite

open Checks

abbrev UtxoSet := FinMap TransactionInput TransactionOutput

/-- The outputs created and the outputs spent, the latter with their old value. -/
abbrev UtxoDiff := Journal TransactionInput TransactionOutput

/-- The coins the UTxO sub-state keeps beside the set. -/
structure UtxoPots where
  epochFees : Nat := 0
  pendingDonations : Nat := 0

structure UtxoSubState extends UtxoPots where
  utxoSet : UtxoSet
  /-- Slot, block hash and diff of the last blocks, oldest first. -/
  diffSeq : List (Nat × Hash32 × UtxoDiff) := []

inductive LedgerError where
  | invalidTransaction (reason : String)
  | blockTxValidationFailed (slot : Nat) (txHash : Hash32) (errors : String)
  | invalidProtocolParam (reason : String)
  /-- A check that has nothing to do with the UTxO set. -/
  | otherRule (reason : String)
  deriving DecidableEq

/-! ## Spending and producing -/

/-- Outputs are keyed by the transaction id and their position as a `u32`. -/
def outputKey (txId : Hash32) (idx : Nat) : TransactionInput := ⟨txId, BitVec.ofNat 32 idx⟩

/-- The outputs of a transaction with their keys. -/
def keyedOutputs (txId : Hash32) (outputs : List TransactionOutput) :
    List (TransactionInput × TransactionOutput) :=
  outputs.zipIdx.map fun e => (outputKey txId e.2, e.1)

/-- Record and insert outputs, one after the other. -/
def createOutputs (created : List (TransactionInput × TransactionOutput))
    (acc : UtxoSet × UtxoDiff) : UtxoSet × UtxoDiff :=
  created.foldl (fun acc e => (acc.1.insert e.1 e.2, acc.2.recordInsert e.1 e.2)) acc

section
variable (inputs : List TransactionInput)

/-- Spend inputs one after the other: record the output an input has now, if any, and remove it. -/
def consumeInputs (acc : UtxoSet × UtxoDiff) : UtxoSet × UtxoDiff :=
  inputs.foldl (fun acc input =>
    match acc.1.lookup input with
    | some spent => (acc.1.erase input, acc.2.recordDelete input spent)
    | none => (acc.1.erase input, acc.2)) acc

/-- The outputs that the inputs spend. An input listed twice is spent once, and an input that is
not in the set is passed over. -/
def spentOutputs (utxoSet : UtxoSet) : List (TransactionInput × TransactionOutput) :=
  inputs.eraseDups.filterMap fun input => (utxoSet.lookup input).map (input, ·)

/-- Remove the inputs that are there. -/
def removeInputs (utxoSet : UtxoSet) : UtxoSet :=
  inputs.foldl (fun u input => if (u.lookup input).isSome then u.erase input else u) utxoSet

end

def applyUtxoChanges (tx : Transaction) (utxo : UtxoSubState) : UtxoSubState × UtxoDiff :=
  let spent := spentOutputs tx.body.inputs utxo.utxoSet
  let removed := removeInputs tx.body.inputs utxo.utxoSet
  let diff : UtxoDiff := spent.foldl (fun d e => d.recordDelete e.1 e.2) {}
  let (utxoSet, diff) := createOutputs (keyedOutputs tx.hash tx.body.outputs) (removed, diff)
  ({ utxo with utxoSet, epochFees := satAdd utxo.epochFees tx.body.fee }, diff)

/-- The sum of the coins of some inputs, in wrapping `u64` arithmetic. -/
def collateralInputValue (collateral : List TransactionInput) (utxoSet : UtxoSet) : Nat :=
  (spentOutputs collateral utxoSet).foldl (fun sum e => (sum + e.2.value.coin) % 2 ^ 64) 0

/-- The collateral return of a failed transaction stands after its regular outputs. -/
def collateralReturnOutput (tx : Transaction) : List (TransactionInput × TransactionOutput) :=
  match tx.body.collateralReturn with
  | some output => [(outputKey tx.hash tx.body.outputs.length, output)]
  | none => []

def applyCollateralConsumption (tx : Transaction) (utxo : UtxoSubState) : UtxoSubState × UtxoDiff :=
  let inputValue := collateralInputValue tx.body.collateral utxo.utxoSet
  let consumed := consumeInputs tx.body.collateral.eraseDups (utxo.utxoSet, {})
  let (utxoSet, diff) := createOutputs (collateralReturnOutput tx) consumed
  let returnValue := (tx.body.collateralReturn.map (·.value.coin)).getD 0
  let fee := tx.body.totalCollateral.getD (satSub inputValue returnValue)
  ({ utxo with utxoSet, epochFees := satAdd utxo.epochFees fee }, diff)

/-- A transaction input's display text. -/
def TransactionInput.display (input : TransactionInput) : String :=
  input.transactionId.toHex ++ "#" ++ toString input.index.toNat

/-! ## Byron -/

inductive BlockValidationMode where
  | validateAll | applyOnly
  deriving DecidableEq

inductive ByronError where
  | inputNotFound (input : String)
  | valueNotConserved (inputs outputs fee : Nat)
  | feeTooSmall (minimum actual : Nat)
  | multiAssetInOutput
  | noInputs
  | valueOverflow
  deriving DecidableEq

/-- The error's display text. -/
def ByronError.text : ByronError → String
  | inputNotFound input => "Input not found in UTxO set: " ++ input
  | valueNotConserved inputs outputs fee =>
    "Value not conserved: inputs=" ++ toString inputs ++ ", outputs=" ++ toString outputs ++
      ", fee=" ++ toString fee
  | feeTooSmall minimum actual =>
    "Fee too small: minimum=" ++ toString minimum ++ ", actual=" ++ toString actual
  | multiAssetInOutput => "Byron output contains multi-asset tokens (only ADA is valid in Byron)"
  | noInputs => "Byron transaction has no inputs"
  | valueOverflow => "Value overflow in Byron transaction accounting"

structure ByronFeePolicy where
  (summand multNum multDen : Nat)

namespace ByronFeePolicy

def canonical : ByronFeePolicy := ⟨155381, 21973, 500⟩

/-- `a + ceiling(size * b)`, when it fits into a `u64`. -/
def minFee (policy : ByronFeePolicy) (txSizeBytes : Nat) : Option Nat :=
  if policy.multDen = 0 then none
  else
    let fee := policy.summand +
      (txSizeBytes * policy.multNum + (policy.multDen - 1)) / policy.multDen
    if fee ≤ u64Max then some fee else none

end ByronFeePolicy

structure ByronTxEffect where
  consumed : List TransactionInput
  produced : List (TransactionInput × TransactionOutput)
  fee : Nat

/-- Resolve the inputs: the sum of their coins, and whether all of them are at redeem addresses. -/
def sumByronInputs (cbor : Minicbor) (utxoSet : UtxoSet) :
    List TransactionInput → Nat × Bool → Except ByronError (Nat × Bool)
  | [], acc => .ok acc
  | input :: rest, (sum, allRedeem) =>
    match utxoSet.lookup input with
    | none => .error (.inputNotFound input.display)
    | some output =>
      if sum + output.value.coin > u64Max then .error .valueOverflow
      else sumByronInputs cbor utxoSet rest
        (sum + output.value.coin, allRedeem && output.address.isRedeem cbor)

def sumByronOutputs : List TransactionOutput → Nat → Except ByronError Nat
  | [], sum => .ok sum
  | output :: rest, sum =>
    if sum + output.value.coin > u64Max then .error .valueOverflow
    else sumByronOutputs rest (sum + output.value.coin)

/-- A transaction that spends only redeem outputs pays no minimum fee. -/
def byronMinFee (feePolicy : ByronFeePolicy) (allInputsRedeem : Bool) (txSizeBytes : Nat) :
    Except ByronError Nat :=
  if allInputsRedeem then .ok 0
  else match feePolicy.minFee txSizeBytes with
    | some minFee => .ok minFee
    | none => .error .valueOverflow

def validateByronTx (cbor : Minicbor) (feePolicy : ByronFeePolicy) (utxoSet : UtxoSet)
    (tx : Transaction) (txSizeBytes : Nat) : Except ByronError ByronTxEffect := do
  rejectIf tx.body.inputs.isEmpty .noInputs
  let (inputSum, allInputsRedeem) ← sumByronInputs cbor utxoSet tx.body.inputs (0, true)
  rejectIf (tx.body.outputs.any fun o => !o.value.multiAsset.isEmpty) .multiAssetInOutput
  let outputSum ← sumByronOutputs tx.body.outputs 0
  -- the fee is implicit: what the outputs leave of the inputs
  rejectIf (inputSum < outputSum) (.valueNotConserved inputSum outputSum 0)
  let fee := inputSum - outputSum
  let minFee ← byronMinFee feePolicy allInputsRedeem txSizeBytes
  rejectIf (fee < minFee) (.feeTooSmall minFee fee)
  return ⟨tx.body.inputs, keyedOutputs tx.hash tx.body.outputs, fee⟩

/-- `apply_byron_block` on a block of one transaction, as the block loop calls it. Replay skips the
UTxO changes of a transaction with a missing input and counts its fee all the same. -/
def applyByronBlock (cbor : Minicbor) (feePolicy : ByronFeePolicy) (mode : BlockValidationMode)
    (utxoSet : UtxoSet) (tx : Transaction) : Except ByronError ByronTxEffect :=
  match mode with
  | .validateAll =>
    validateByronTx cbor feePolicy utxoSet tx ((tx.rawCbor.map List.length).getD 0)
  | .applyOnly =>
    if tx.body.inputs.all fun input => (utxoSet.lookup input).isSome then
      .ok ⟨tx.body.inputs, keyedOutputs tx.hash tx.body.outputs, tx.body.fee⟩
    else .ok ⟨[], [], tx.body.fee⟩

/-- Apply the effect of a Byron transaction at once, so that the next one sees it. -/
def applyByronEffect (effect : ByronTxEffect) (utxoSet : UtxoSet) : UtxoSet × UtxoDiff :=
  createOutputs effect.produced (consumeInputs effect.consumed (utxoSet, {}))

/-! ## Dijkstra sub-transactions -/

/-- What earlier sub-transactions did to the set: an output they created, or nothing for one they
spent. -/
abbrev Overlay := FinMap TransactionInput (Option TransactionOutput)

/-- Look an input up in the overlay first, then in the set. -/
def resolveInput (overlay : Overlay) (utxoSet : UtxoSet) (input : TransactionInput) :
    Option TransactionOutput :=
  match overlay.lookup input with
  | some entry => entry
  | none => utxoSet.lookup input

def subTxError (predicate : String) (sub : SubTransaction) (parent : Hash32) (detail : String) :
    LedgerError :=
  .invalidTransaction (predicate ++ ": sub-tx " ++ sub.txId.toHex ++ " of parent " ++
    parent.toHex ++ " " ++ detail)

/-- The outputs that the inputs of a sub-transaction resolve to; all of them must. -/
def resolveSubInputs (overlay : Overlay) (utxoSet : UtxoSet) (parent : Hash32)
    (sub : SubTransaction) :
    List TransactionInput → Except LedgerError (List (TransactionInput × TransactionOutput))
  | [] => .ok []
  | input :: rest =>
    match resolveInput overlay utxoSet input with
    | some output => do
      let spent ← resolveSubInputs overlay utxoSet parent sub rest
      return (input, output) :: spent
    | none => .error (subTxError "SubBadInputsUTxO" sub parent
        ("input " ++ input.display ++ " not found — aborting the ENTIRE top-level tx " ++
          "(Dijkstra SUBLEDGERS foldM: any sub-tx failure fails the whole tx, no partial " ++
          "sibling effects)"))

variable (slot : Nat)

def checkSubTtl (parent : Hash32) (sub : SubTransaction) : Except LedgerError Unit :=
  match sub.ttl with
  | some ttl =>
    if slot ≥ ttl then
      .error (subTxError "SubOutsideValidityIntervalUTxO" sub parent
        ("ttl=" ++ toString ttl ++ " <= current_slot=" ++ toString slot ++
          " — aborting the ENTIRE top-level tx"))
    else .ok ()
  | none => .ok ()

def checkSubStart (parent : Hash32) (sub : SubTransaction) : Except LedgerError Unit :=
  match sub.validityIntervalStart with
  | some start =>
    if slot < start then
      .error (subTxError "SubOutsideValidityIntervalUTxO" sub parent
        ("not yet valid (validity_interval_start=" ++ toString start ++ " > current_slot=" ++
          toString slot ++ ") — aborting the ENTIRE top-level tx"))
    else .ok ()
  | none => .ok ()

/-- The checks of the first pass that read the set or the sub-transaction alone. -/
def planSubTransaction (overlay : Overlay) (utxoSet : UtxoSet) (parent : Hash32)
    (sub : SubTransaction) : Except LedgerError (List (TransactionInput × TransactionOutput)) := do
  rejectIf
    (!sub.mint.isEmpty || !sub.votingProcedures.isEmpty || !sub.proposalProcedures.isEmpty)
    (subTxError "SubEntitiesNotYetApplied" sub parent
      ("declares mint/voting/proposal effects that dugite decodes but does not yet apply " ++
        "(#1011 SUBGOV apply routing is out of scope; mint has no sub-tx balance-check infra) " ++
        "— rejecting rather than silently dropping those effects; aborting the ENTIRE " ++
        "top-level tx"))
  rejectIf sub.inputs.isEmpty (subTxError "SubInputSetEmptyUTxO" sub parent
    "declares zero inputs — aborting the ENTIRE top-level tx")
  checkSubTtl slot parent sub
  checkSubStart slot parent sub
  resolveSubInputs overlay utxoSet parent sub sub.inputs

/-- Spent inputs become tombstones, created outputs become visible to later siblings. -/
def threadOverlay (overlay : Overlay) (sub : SubTransaction)
    (spent : List (TransactionInput × TransactionOutput)) : Overlay :=
  let tombstones := spent.foldl (fun o e => o.insert e.1 none) overlay
  (keyedOutputs sub.txId sub.outputs).foldl (fun o e => o.insert e.1 (some e.2)) tombstones

/-- First pass: every sub-transaction is checked against its predecessors' effects, and nothing is
written. -/
def planSubTransactions (slot : Nat) (utxoSet : UtxoSet) (parent : Hash32) :
    List SubTransaction → Overlay →
      Except LedgerError (List (SubTransaction × List (TransactionInput × TransactionOutput)))
  | [], _ => .ok []
  | sub :: subs, overlay => do
    let spent ← planSubTransaction slot overlay utxoSet parent sub
    let planned ← planSubTransactions slot utxoSet parent subs (threadOverlay overlay sub spent)
    return (sub, spent) :: planned

/-- Second pass, for one sub-transaction: remove and record what the plan says it spends, then
insert and record its outputs. -/
def commitSubTransaction (acc : UtxoSet × UtxoDiff)
    (plan : SubTransaction × List (TransactionInput × TransactionOutput)) : UtxoSet × UtxoDiff :=
  createOutputs (keyedOutputs plan.1.txId plan.1.outputs)
    (plan.2.foldl (fun acc e => (acc.1.erase e.1, acc.2.recordDelete e.1 e.2)) acc)

def applySubTransactions (tx : Transaction) (utxo : UtxoSubState) :
    Except LedgerError (UtxoSubState × UtxoDiff) := do
  let planned ← planSubTransactions slot utxo.utxoSet tx.hash tx.body.subTransactions ∅
  let (utxoSet, diff) := planned.foldl commitSubTransaction (utxo.utxoSet, {})
  return ({ utxo with utxoSet }, diff)

/-! ## The era rules -/

/-- `apply_valid_tx` of the rules of an era, on the UTxO sub-state. Byron blocks do not come
here. -/
def applyValidTx (era : Era) (slot : Nat) (tx : Transaction) (utxo : UtxoSubState) :
    Except LedgerError (UtxoSubState × UtxoDiff) :=
  if era = .dijkstra ∧ tx.body.subTransactions ≠ [] then do
    let (utxo, subDiff) ← applySubTransactions slot tx utxo
    let (utxo, diff) := applyUtxoChanges tx utxo
    return (utxo, diff.merge subDiff)
  else .ok (applyUtxoChanges tx utxo)

/-- `apply_invalid_tx` of the rules of an era: before Alonzo there is no such thing. -/
def applyInvalidTx (era : Era) (tx : Transaction) (utxo : UtxoSubState) :
    Except LedgerError (UtxoSubState × UtxoDiff) :=
  match era with
  | .byron | .shelley | .allegra | .mary =>
    .error (.invalidTransaction ("Shelley/Allegra/Mary eras do not support invalid " ++
      "transactions (is_valid flag). Transaction " ++ tx.hash.toHex ++
      " should not reach apply_invalid_tx."))
  | .alonzo | .babbage | .conway | .dijkstra => .ok (applyCollateralConsumption tx utxo)

end Dugite
