import Dugite.Lib.Cascade
import Dugite.Lib.Listing
import Dugite.Lib.Sorted
import Dugite.Primitives.Transaction
import Mathlib.Algebra.Order.Field.Rat

/-!
# The transaction mempool

The mempool keeps the pending transactions by hash, and beside them a queue of hashes in the order
of arrival, an index by fee density, the inputs they spend, the outputs they make (the virtual
UTxO), the edges from a pending transaction to those that spend its outputs, and running totals.

A removed hash stays in the queue and is entered among the tombstones; compaction takes it out.
Totals are machine words: `+` and `-` wrap.
-/

namespace Dugite

/-- `ORDER_DEQUE_MAX`. -/
def orderDequeMax : Nat := 4 * 16384

/-- `VIRTUAL_CHAIN_MAX_DEPTH`. -/
def virtualChainMaxDepth : Nat := 5

structure MempoolConfig where
  maxTransactions : Nat := 16384
  maxBytes : Nat := 512 * 1024 * 1024
  maxExMem : Nat := 28000000000
  maxExSteps : Nat := 20000000000000
  maxRefScriptsBytes : Nat := 1048576
  /-- The maximum is a machine word. -/
  maxTransactions_le : maxTransactions ≤ u64Max := by decide

inductive MempoolRemoveReason where
  | mined | evicted | manual
  deriving DecidableEq

/-! ## Fee density -/

/-- The position of a transaction in the fee index. -/
structure FeeDensityKey where
  fee : Nat
  size : Nat
  txHash : Hash32
  size_pos : 0 < size

/-- A size of zero counts as one. -/
def FeeDensityKey.new (fee size : Nat) (txHash : Hash32) : FeeDensityKey :=
  ⟨fee, if size = 0 then 1 else size, txHash, by split <;> omega⟩

/-- Highest density first, by cross-multiplication; ties by hash. -/
instance : Ord FeeDensityKey where
  compare a b := (compare (b.fee * a.size) (a.fee * b.size)).then (compare a.txHash b.txHash)

namespace FeeDensityKey

/-- The fee density, with the sign that puts the highest first. -/
def rank (k : FeeDensityKey) : ℚ := -(k.fee / k.size)

theorem compare_rank (a b : FeeDensityKey) :
    compare (b.fee * a.size) (a.fee * b.size) = compare a.rank b.rank := by
  have ha : (0 : ℚ) < a.size := Nat.cast_pos.2 a.size_pos
  have hb : (0 : ℚ) < b.size := Nat.cast_pos.2 b.size_pos
  have hlt : b.fee * a.size < a.fee * b.size ↔ a.rank < b.rank := by
    rw [rank, rank, neg_lt_neg_iff, div_lt_div_iff₀ hb ha]
    exact_mod_cast Iff.rfl
  have heq : b.fee * a.size = a.fee * b.size ↔ a.rank = b.rank := by
    rw [rank, rank, neg_inj, div_eq_div_iff ha.ne' hb.ne', eq_comm]
    exact_mod_cast Iff.rfl
  rw [LinearOrder.compare_eq_compareOfLessAndEq, LinearOrder.compare_eq_compareOfLessAndEq]
  simp only [compareOfLessAndEq, hlt, heq]

theorem compare_eq_lex : (compare : FeeDensityKey → FeeDensityKey → Ordering) =
      compareLex (compareOn rank) (compareOn txHash) :=
  funext₂ fun a b => congrArg (Ordering.then · (compare a.txHash b.txHash)) (compare_rank a b)

instance : Std.TransOrd FeeDensityKey := by
  rw [Std.TransOrd, compare_eq_lex]
  infer_instance

/-- Keys that compare equal are of one transaction. -/
theorem txHash_eq_of_compare {a b : FeeDensityKey} (h : compare a b = .eq) : a.txHash = b.txHash :=
  Std.LawfulEqOrd.eq_of_compare (Ordering.then_eq_eq.1 h).2

end FeeDensityKey

/-! ## The pool -/

structure MempoolEntry where
  tx : Transaction
  txHash : Hash32
  sizeBytes : Nat := 0
  fee : Nat := 0
  exUnitsMem : Nat := 0
  exUnitsSteps : Nat := 0
  refScriptsBytes : Nat := 0

def MempoolEntry.feeKey (e : MempoolEntry) (txHash : Hash32) : FeeDensityKey :=
  .new e.fee e.sizeBytes txHash

structure Mempool where
  txs : FinMap Hash32 MempoolEntry := ∅
  order : List Hash32 := []
  orderTombstones : Finset Hash32 := ∅
  feeIndex : SortedSet FeeDensityKey := ∅
  claimedInputs : FinMap TransactionInput Hash32 := ∅
  virtualUtxo : FinMap TransactionInput TransactionOutput := ∅
  dependents : FinMap Hash32 (List Hash32) := ∅
  totalBytes : Nat := 0
  totalExMem : Nat := 0
  totalExSteps : Nat := 0
  totalRefScriptsBytes : Nat := 0
  txCount : Nat := 0
  config : MempoolConfig

inductive MempoolError where
  | full (max : Nat)
  | tooLarge (size : Nat)
  | insufficientPriority
  | inputConflict (claimedBy : Hash32)
  | virtualChainTooDeep (depth max : Nat)
  deriving DecidableEq

inductive MempoolAddResult where
  | added | alreadyExists
  deriving DecidableEq

/-- The entries of the virtual UTxO a transaction makes. The index is cut to 32 bits. -/
def virtualOutputs (txHash : Hash32) (tx : Transaction) :
    List (TransactionInput × TransactionOutput) :=
  tx.body.outputs.zipIdx.map fun o => (⟨txHash, .ofNat 32 o.2⟩, o.1)

namespace Mempool

def new (config : MempoolConfig) : Mempool := { config := config }

variable (m : Mempool)

/-- Compact the queue when more than half of it, and more than 100 hashes, are tombstoned. -/
def maybeCompactOrder : Mempool :=
  if m.orderTombstones.card > 100 ∧ m.orderTombstones.card * 2 > m.order.length then
    { m with order := m.order.filter (· ∉ m.orderTombstones), orderTombstones := ∅ }
  else m

/-! ### Removal -/

/-- What the batch of a cascade takes off the index and the totals at its end. -/
structure Batch where
  keys : List FeeDensityKey := []
  bytes : Nat := 0
  exMem : Nat := 0
  exSteps : Nat := 0
  refs : Nat := 0

def Batch.push (b : Batch) (txHash : Hash32) (e : MempoolEntry) : Batch where
  keys := b.keys ++ [e.feeKey txHash]
  bytes := wrapAdd b.bytes e.sizeBytes
  exMem := wrapAdd b.exMem e.exUnitsMem
  exSteps := wrapAdd b.exSteps e.exUnitsSteps
  refs := wrapAdd b.refs e.refScriptsBytes

def discount (b : Batch) : Mempool :=
  { m with
    feeIndex := m.feeIndex.eraseAll b.keys
    totalBytes := wrapSub m.totalBytes b.bytes
    totalExMem := wrapSub m.totalExMem b.exMem
    totalExSteps := wrapSub m.totalExSteps b.exSteps
    totalRefScriptsBytes := wrapSub m.totalRefScriptsBytes b.refs }

variable (txHash : Hash32)

variable (e : MempoolEntry)

/-- Take one transaction out of everything but the fee index and the totals: a tombstone for its
hash, its inputs released, its outputs withdrawn. -/
def unlink : Mempool :=
  { m with
    txs := m.txs.erase txHash
    txCount := wrapSub m.txCount 1
    orderTombstones := insert txHash m.orderTombstones
    claimedInputs := m.claimedInputs.eraseAll e.tx.body.inputs
    virtualUtxo := m.virtualUtxo.eraseAll ((virtualOutputs txHash e.tx).map (·.1)) }

/-- One descendant of a cascade, when it is pending. -/
def removeChild (s : Mempool × Batch) (child : Hash32) : Mempool × Batch :=
  match s.1.txs.lookup child with
  | none => s
  | some e => (s.1.unlink child e, s.2.push child e)

/-- `remove_tx_inner`, as every caller uses it: with the cascade. -/
def removeTxWithReason (reason : MempoolRemoveReason) : Option Transaction × Mempool :=
  match m.txs.lookup txHash with
  | none => (none, m)
  | some e =>
    let m := (m.unlink txHash e).discount ⟨[e.feeKey txHash], e.sizeBytes, e.exUnitsMem,
      e.exUnitsSteps, e.refScriptsBytes⟩
    if reason = .mined then
      -- The outputs are on the chain now: what spends them stays.
      (some e.tx, { m with dependents := m.dependents.erase txHash })
    else
      let (edges, children) := Cascade.cascade m.dependents txHash
      let m := { m with dependents := edges }
      let m := if children.isEmpty then m else
        let s := children.foldl removeChild (m, {})
        s.1.discount s.2
      (some e.tx, m.maybeCompactOrder)

def removeTx : Option Transaction × Mempool := m.removeTxWithReason txHash .manual

def removeTxsWithReason (txHashes : List Hash32) (reason : MempoolRemoveReason) : Mempool :=
  txHashes.foldl (fun m h => (m.removeTxWithReason h reason).2) m

/-! ### Admission -/

def needsEviction : Bool :=
  m.txCount ≥ m.config.maxTransactions ||
    wrapAdd m.totalBytes e.sizeBytes > m.config.maxBytes ||
    wrapAdd m.totalExMem e.exUnitsMem > m.config.maxExMem ||
    wrapAdd m.totalExSteps e.exUnitsSteps > m.config.maxExSteps ||
    wrapAdd m.totalRefScriptsBytes e.refScriptsBytes > m.config.maxRefScriptsBytes

/-- The eviction loop. Each round takes the worst transaction out, so that there are at most as many
as there are transactions; with none left it ends as it does with an empty index. -/
def evictLoop (e : MempoolEntry) : Nat → Mempool → Bool × Mempool
  | 0, m => (true, m)
  | fuel + 1, m =>
    if !m.needsEviction e then (true, m)
    else match m.feeIndex.last? with
      | none => (true, m)
      | some worst =>
        let newSizeCmp := if e.sizeBytes = 0 then 1 else e.sizeBytes
        if e.fee * worst.size ≤ worst.fee * newSizeCmp then (false, m)
        else evictLoop e fuel (m.removeTx worst.txHash).2

def ensureCapacity : Bool × Mempool := evictLoop e m.txs.size m

/-- A transaction that has `ancestor` among its dependents, the first in the order of the table. -/
def parentOf (table : Listing.Enumeration Hash32) (edges : FinMap Hash32 (List Hash32))
    (ancestor : Hash32) : Option Hash32 :=
  (table.list edges.keys).find? fun k => ancestor ∈ Cascade.children edges k

/-- Climb from `ancestor`; `left` is what is left of the maximum depth. -/
def climb (table : Listing.Enumeration Hash32) (edges : FinMap Hash32 (List Hash32)) :
    Nat → Hash32 → Except MempoolError Unit
  | 0, _ => .error (.virtualChainTooDeep virtualChainMaxDepth virtualChainMaxDepth)
  | left + 1, ancestor => match parentOf table edges ancestor with
    | none => .ok ()
    | some grandparent => climb table edges left grandparent

/-- Enter a newcomer among the dependents of its parents, input by input. An error leaves the edges
that were entered before. -/
def linkParents (table : Listing.Enumeration Hash32)
    (virtualUtxo : FinMap TransactionInput TransactionOutput) (txHash : Hash32) :
    List TransactionInput → FinMap Hash32 (List Hash32) →
      Except MempoolError Unit × FinMap Hash32 (List Hash32)
  | [], edges => (.ok (), edges)
  | input :: inputs, edges =>
    let parent := input.transactionId
    if (virtualUtxo.lookup input).isSome ∧ parent ≠ txHash then
      match climb table edges (virtualChainMaxDepth - 1) parent with
      | .error err => (.error err, edges)
      | .ok () => linkParents table virtualUtxo txHash inputs
          (edges.insert parent (Cascade.children edges parent ++ [txHash]))
    else linkParents table virtualUtxo txHash inputs edges

/-- Put a hash at the back of the queue; a full queue loses its front. -/
def pushOrder : Mempool :=
  { m with
    order := (if m.order.length ≥ orderDequeMax then m.order.tail else m.order) ++ [txHash] }

/-- Enter a transaction whose inputs are claimed and whose parents are linked. -/
def enter : Mempool :=
  let m := { m with
    virtualUtxo := m.virtualUtxo.insertAll (virtualOutputs e.txHash e.tx)
    feeIndex := m.feeIndex.insert (e.feeKey e.txHash)
    txs := m.txs.insert e.txHash e
    orderTombstones := m.orderTombstones.erase e.txHash }
  let m := m.maybeCompactOrder.pushOrder e.txHash
  { m with
    totalBytes := wrapAdd m.totalBytes e.sizeBytes
    totalExMem := wrapAdd m.totalExMem e.exUnitsMem
    totalExSteps := wrapAdd m.totalExSteps e.exUnitsSteps
    totalRefScriptsBytes := wrapAdd m.totalRefScriptsBytes e.refScriptsBytes
    txCount := wrapAdd m.txCount 1 }

section
variable (table : Listing.Enumeration Hash32) (m : Mempool)

/-- `add_tx_inner` after the eviction. -/
def addChecked (e : MempoolEntry) : Except MempoolError MempoolAddResult × Mempool :=
  if m.txCount ≥ m.config.maxTransactions then (.error (.full m.config.maxTransactions), m)
  else if wrapAdd m.totalBytes e.sizeBytes > m.config.maxBytes then
    (.error (.tooLarge e.sizeBytes), m)
  else
    let claimed := m.claimedInputs.insertAll (e.tx.body.inputs.map (·, e.txHash))
    match linkParents table m.virtualUtxo e.txHash e.tx.body.inputs m.dependents with
    | (.error err, edges) =>
      (.error err, { m with
        claimedInputs := claimed.eraseAll e.tx.body.inputs
        dependents := edges })
    | (.ok (), edges) =>
      (.ok .added, enter { m with claimedInputs := claimed, dependents := edges } e)

/-- `add_tx_inner`. The arguments of the source are the fields of the entry. -/
def addTxFull (e : MempoolEntry) : Except MempoolError MempoolAddResult × Mempool :=
  if (m.txs.lookup e.txHash).isSome then (.ok .alreadyExists, m)
  else match e.tx.body.inputs.findSome? fun i => m.claimedInputs.lookup i with
    | some claimedBy => (.error (.inputConflict claimedBy), m)
    | none =>
      let (room, m) := m.ensureCapacity e
      if room then addChecked table m e else (.error .insufficientPriority, m)

/-! ### Sweeps -/

/-- The hashes of the transactions that have expired at a slot, in the order of the table. -/
def expired (currentSlot : Nat) : List Hash32 :=
  (table.list m.txs.keys).filterMap fun h => (m.txs.lookup h).bind fun e =>
    e.tx.body.ttl.bind fun ttl => if currentSlot ≥ ttl then some e.txHash else none

def evictExpired (currentSlot : Nat) : Nat × Mempool :=
  let gone := m.expired table currentSlot
  let m := m.removeTxsWithReason gone .evicted
  (gone.length, if gone.length > 0 then m.maybeCompactOrder else m)

/-- The hashes of the transactions that spend an input of the set. -/
def conflicting (consumed : Finset TransactionInput) : List Hash32 :=
  (table.list m.txs.keys).filterMap fun h => (m.txs.lookup h).bind fun e =>
    if e.tx.body.inputs.any (· ∈ consumed) then some e.txHash else none

def revalidateAgainstInputs (consumed : Finset TransactionInput) : List Hash32 × Mempool :=
  let gone := m.conflicting table consumed
  (gone, m.removeTxsWithReason gone .evicted)

end

def txHashesOrdered (m : Mempool) : List Hash32 := m.order.filter (· ∉ m.orderTombstones)

/-- One hash of `revalidate_all`. The closure may remember what it was asked: `asked` are the
transactions it has seen, `removed` the hashes taken out. -/
def revalidateOne (isValid : List Transaction → Transaction → Bool)
    (s : Mempool × List Transaction × List Hash32) (h : Hash32) :
    Mempool × List Transaction × List Hash32 :=
  match s.1.txs.lookup h with
  | none => s
  | some e =>
    if isValid s.2.1 e.tx then (s.1, s.2.1 ++ [e.tx], s.2.2)
    else ((s.1.removeTxWithReason h .evicted).2, s.2.1 ++ [e.tx], s.2.2 ++ [h])

def revalidateAll (m : Mempool) (isValid : List Transaction → Transaction → Bool) :
    List Hash32 × Mempool :=
  let s := m.txHashesOrdered.foldl (revalidateOne isValid) (m, [], [])
  (s.2.2, s.1)

/-- One hash of `drain_all`. -/
def drainOne (s : FinMap Hash32 MempoolEntry × List Transaction) (h : Hash32) :
    FinMap Hash32 MempoolEntry × List Transaction :=
  match s.1.lookup h with
  | none => s
  | some e => (s.1.erase h, s.2 ++ [e.tx])

/-- Take out the transactions that are in the queue, and reset everything else. -/
def drainAll (m : Mempool) : List Transaction × Mempool :=
  let s := m.order.foldl drainOne (m.txs, [])
  (s.2, { txs := s.1, config := m.config })

def clear (m : Mempool) : Mempool := { config := m.config }

def updateCapacityFromParams (m : Mempool) (maxBlockBodySize maxBlockExMem maxBlockExSteps : Nat) :
    Mempool :=
  { m with config := { m.config with
    maxBytes := min (maxBlockBodySize * 2) u64Max
    maxExMem := min (maxBlockExMem * 2) u64Max
    maxExSteps := min (maxBlockExSteps * 2) u64Max } }

/-! ### Block production -/

/-- `tx_ex_units`. -/
def txExUnits (tx : Transaction) : ExUnits :=
  tx.witnessSet.redeemers.foldl
    (fun u r => ⟨satAdd u.mem r.exUnits.mem, satAdd u.steps r.exUnits.steps⟩) ⟨0, 0⟩

structure BlockLimits where
  (maxCount maxSize maxBlockExMem maxBlockExSteps : Nat)

structure Selection where
  result : List (Hash32 × MempoolEntry) := []
  totalSize : Nat := 0
  totalExMem : Nat := 0
  totalExSteps : Nat := 0
  seen : Finset Hash32 := ∅

/-- The transaction is past its last slot at the forge slot. -/
def expiredAt (forgeSlot : Option Nat) (e : MempoolEntry) : Bool :=
  match forgeSlot, e.tx.body.ttl with
  | some slot, some ttl => ttl ≤ slot
  | _, _ => false

def Selection.fits (s : Selection) (limits : BlockLimits) (e : MempoolEntry) : Bool :=
  wrapAdd s.totalSize e.sizeBytes ≤ limits.maxSize &&
    satAdd s.totalExMem (txExUnits e.tx).mem ≤ limits.maxBlockExMem &&
    satAdd s.totalExSteps (txExUnits e.tx).steps ≤ limits.maxBlockExSteps

def Selection.push (s : Selection) (h : Hash32) (e : MempoolEntry) : Selection :=
  { s with
    result := s.result ++ [(h, e)]
    totalSize := wrapAdd s.totalSize e.sizeBytes
    totalExMem := satAdd s.totalExMem (txExUnits e.tx).mem
    totalExSteps := satAdd s.totalExSteps (txExUnits e.tx).steps }

/-- Walk the queue. An expired transaction is skipped; the first that does not fit ends the walk. -/
def selectFrom (m : Mempool) (limits : BlockLimits) (forgeSlot : Option Nat) :
    List Hash32 → Selection → Selection
  | [], s => s
  | h :: queue, s =>
    if s.result.length ≥ limits.maxCount then s
    else if h ∈ m.orderTombstones ∨ h ∈ s.seen then selectFrom m limits forgeSlot queue s
    else
      let s := { s with seen := insert h s.seen }
      match m.txs.lookup h with
      | none => selectFrom m limits forgeSlot queue s
      | some e =>
        if expiredAt forgeSlot e then selectFrom m limits forgeSlot queue s
        else if s.fits limits e then selectFrom m limits forgeSlot queue (s.push h e)
        else s

/-- The pending transactions chosen for a block, with their hashes. -/
def select (m : Mempool) (limits : BlockLimits) (forgeSlot : Option Nat) :
    List (Hash32 × MempoolEntry) :=
  (m.selectFrom limits forgeSlot m.order {}).result

def getTxsForBlockWithExUnitsAt (m : Mempool) (limits : BlockLimits) (forgeSlot : Option Nat) :
    List Transaction :=
  (m.select limits forgeSlot).map (·.2.tx)

/-! ### Calls -/

/-- A call of the mempool. The order in which the table of a call runs through its keys is part of
the call. -/
inductive Call where
  | addTxFull (table : Listing.Enumeration Hash32) (e : MempoolEntry)
  | removeTx (txHash : Hash32) (reason : MempoolRemoveReason)
  | evictExpired (table : Listing.Enumeration Hash32) (currentSlot : Nat)
  | revalidateAgainstInputs (table : Listing.Enumeration Hash32)
      (consumed : Finset TransactionInput)
  | revalidateAll (isValid : List Transaction → Transaction → Bool)
  | updateCapacityFromParams (maxBlockBodySize maxBlockExMem maxBlockExSteps : Nat)
  | drainAll
  | clear

def call (m : Mempool) : Call → Mempool
  | .addTxFull table e => (m.addTxFull table e).2
  | .removeTx h reason => (m.removeTxWithReason h reason).2
  | .evictExpired table slot => (m.evictExpired table slot).2
  | .revalidateAgainstInputs table consumed => (m.revalidateAgainstInputs table consumed).2
  | .revalidateAll isValid => (m.revalidateAll isValid).2
  | .updateCapacityFromParams size mem steps => m.updateCapacityFromParams size mem steps
  | .drainAll => m.drainAll.2
  | .clear => m.clear

/-- A table that lists hashes in their order. -/
def byHash : Listing.Enumeration Hash32 := .sorted BitVec.toNat Hash32.eq_of_toNat

/-- The states reached from an empty mempool by calls that are all admitted by `P`. -/
inductive Reached (config : MempoolConfig) (P : Mempool → Call → Prop) : Mempool → Prop where
  | new : Reached config P (.new config)
  | call {m : Mempool} {c : Call} (h : Reached config P m) (hc : P m c) : Reached config P (m.call c)

end Mempool

end Dugite
