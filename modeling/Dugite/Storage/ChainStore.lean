import Dugite.Lib.Reach
import Dugite.Storage.ChainSelQueue

/-!
# The chain database over its lifetime

`ChainStore` adds to the chain database what its other operations read and write: the immutable
chain in the order of its chunks, the highest block number flushed, and the write-ahead log of the
volatile database. An operation is one call of the public interface (`Op`); `add_blocks_batch` is
one operation for each block of the batch, and a flush at shutdown is a flush.

Left out: the indexes by slot and by block number, which none of these operations reads to move the
selected chain; the schedule of the garbage collector, so that any blocks may be the expired ones;
the size threshold of the log, which may be compacted at any time; log entries of the format without
parents; and I/O errors of the immutable database. A reopening replays any of the log's entries in
any order and finds any prefix of the immutable chain: that covers a crash.
-/

namespace Dugite

namespace VolatileDB

variable (db : VolatileDB)

/-- A database without blocks. -/
def empty : VolatileDB := ⟨∅, ∅, ∅, ∅, [], none, ∅⟩

/-! ## Removal -/

/-- Take a block out of the indexes; the selected chain and the tip are left to the caller. -/
def dropBlock (hash : Hash32) : VolatileDB :=
  match db.blocks.lookup hash with
  | none => db
  | some block =>
    let blocks := db.blocks.erase hash
    let siblings := ((db.successors.lookup block.prevHash).getD ∅).erase hash
    let successors :=
      if siblings = ∅ then db.successors.erase block.prevHash
      else Finmap.insert block.prevHash siblings db.successors
    let leaves := db.leaves.erase hash
    -- the parent may have lost its last child
    let leaves :=
      if (blocks.lookup block.prevHash).isSome ∧ siblings = ∅ then insert block.prevHash leaves
      else leaves
    { db with blocks, successors, leaves, headers := db.headers.erase hash }

/-- The tip is not recomputed. -/
def removeBlock (hash : Hash32) : VolatileDB :=
  if db.hasBlock hash then
    { db.dropBlock hash with selectedChain := db.selectedChain.filter fun h => h ≠ hash }
  else db

/-- The tip is not recomputed. -/
def removeBlocksInMemory (hashes : List Hash32) : VolatileDB :=
  { hashes.foldl dropBlock db with
    selectedChain := db.selectedChain.filter fun h => h ∉ hashes }

def children (hash : Hash32) : Finset Hash32 := (db.successors.lookup hash).getD ∅

/-- The blocks met from `anchor` along the successor map. -/
def reachable (anchor : Hash32) : Finset Hash32 :=
  Reach.spread db.children anchor (db.successors.keys.biUnion db.children).card

variable (table : Listing.Enumeration Hash32)

def pruneUnreachableFrom (anchor : Hash32) : VolatileDB :=
  db.removeBlocksInMemory ((table.list db.blocks.keys).filter fun h => h ∉ db.reachable anchor)

/-- Remove the expired blocks that are not on the selected chain. -/
def gcOrphanedBlocks (expired : List Hash32) : VolatileDB :=
  expired.foldl (fun db hash => if hash ∈ db.selectedChain then db else db.dropBlock hash) db

/-! ## The selected chain -/

def truncateSelectionToDepth (maxDepth : Nat) : VolatileDB :=
  if db.selectedChain.length ≤ maxDepth then db
  else
    let selectedChain := db.selectedChain.take maxDepth
    { db with selectedChain, tip := recomputeTip db.blocks selectedChain }

/-- The selected chain up to the target, else up to its last block at or before the slot. -/
def rollbackChain (targetSlot : Nat) (targetHash : Option Hash32) : List Hash32 :=
  let atTarget := fun h => (db.blocks.lookup h).any fun b =>
    b.slot = targetSlot ∧ targetHash.all fun th => h = th
  match db.selectedChain.findIdx? atTarget with
  | some idx => db.selectedChain.take (idx + 1)
  | none => (db.selectedChain.reverse.dropWhile fun h =>
      !(db.blocks.lookup h).any fun b => b.slot ≤ targetSlot).reverse

def rollbackToPoint (targetSlot : Nat) (targetHash : Option Hash32) : VolatileDB :=
  let selectedChain := db.rollbackChain targetSlot targetHash
  let tip := match selectedChain.getLast? with
    | some h => ((db.blocks.lookup h).map fun b => ⟨b.slot, h, b.blockNo⟩).or db.tip
    | none => none
  { db with selectedChain, tip }

/-- The best chain found so far by a rebuild. -/
structure BestChain where
  chain : List Hash32
  blockNo : Nat
  tip : Option Hash32

/-- Compare a leaf with the best chain so far: block number, then length, then hash. -/
def compareLeaf (best : BestChain) (leaf : TipInfo) : BestChain :=
  let chain := db.walkChainBack leaf.hash
  if leaf.blockNo > best.blockNo then ⟨chain, leaf.blockNo, some leaf.hash⟩
  else if leaf.blockNo = best.blockNo ∧ (chain.length > best.chain.length ∨
      chain.length = best.chain.length ∧ best.tip.all fun t => t < leaf.hash) then
    { best with chain, tip := some leaf.hash }
  else best

def getLeafTips : List TipInfo :=
  ((table.list db.blocks.keys).filter fun h => db.children h = ∅).filterMap fun h =>
    (db.blocks.lookup h).map fun b => ⟨b.slot, h, b.blockNo⟩

def rebuildSelectedChain : VolatileDB :=
  let selectedChain := ((db.getLeafTips table).foldl db.compareLeaf ⟨[], 0, none⟩).chain
  { db with selectedChain, tip := recomputeTip db.blocks selectedChain }

/-! ## Opening -/

/-- Insert one entry of the log. -/
def replayEntry (db : VolatileDB) (entry : Hash32 × VolatileBlock) : VolatileDB :=
  (db.insertBlockInternal entry.1 entry.2.slot entry.2.blockNo entry.2.prevHash true).1

/-- Replay a log and derive the selection. -/
def openFrom (entries : List (Hash32 × VolatileBlock)) : VolatileDB :=
  let db := entries.foldl replayEntry empty
  if db.blocks.size = 0 then db else db.rebuildSelectedChain table

end VolatileDB

structure ChainStore extends ChainDB where
  /-- The immutable chain, oldest first. -/
  immutable : List TipInfo
  lastFlushedBlockNo : Nat
  /-- The blocks of the write-ahead log. -/
  wal : FinMap Hash32 VolatileBlock

namespace ChainStore

variable (s : ChainStore)

/-- A database that holds this on disk and has not been opened. -/
def onDisk (securityParamK : Nat) (wal : FinMap Hash32 VolatileBlock) (immutable : List TipInfo) :
    ChainStore where
  volatile := .empty
  immutableTip := immutable.getLast?
  immutableBlocks := (immutable.map (·.hash)).toFinset
  securityParamK := securityParamK
  loeView := none
  immutable := immutable
  lastFlushedBlockNo := (immutable.getLast?.map (·.blockNo)).getD 0
  wal := wal

/-- The parent of the first block of the selected chain: the immutable tip, else Origin, which is
`Hash32::ZERO` in the source. -/
def anchor : Hash32 := (s.immutableTip.map (·.hash)).getD 0

/-- The entry that an insertion appends to the log. -/
def logBlock (block : NewBlock) : FinMap Hash32 VolatileBlock :=
  Finmap.insert block.hash ⟨block.slot, block.blockNo, block.prevHash⟩ s.wal

/-- `add_block` and its variant with a header, with the log. -/
def addBlock (published : Option LoeState) (block : NewBlock) : ChainStore :=
  { s with
    toChainDB := (s.toChainDB.addBlock published block).1
    wal := if s.hasBlock block.hash then s.wal else s.logBlock block }

/-- A self-forged block, or a block of a batch: the Limit on Eagerness is not asked. -/
def addUngated (block : NewBlock) : ChainStore :=
  { s with
    toChainDB := (s.toChainDB.addSelfForgedBlock block).1
    wal := if s.hasBlock block.hash then s.wal else s.logBlock block }

def switchToFork (newTipHash : Hash32) (ledgerCanReachOrigin : Bool) : ChainStore :=
  match s.toChainDB.switchToFork newTipHash ledgerCanReachOrigin with
  | some (_, db) => { s with toChainDB := db }
  | none => s

def rollbackToPoint (point : Point) : ChainStore :=
  let (targetSlot, targetHash) := match point with
    | .origin => (0, none)
    | .specific slot hash => (slot, some hash)
  if s.volatile.tip.any fun t => targetHash = some t.hash then s
  else { s with volatile := s.volatile.rollbackToPoint targetSlot targetHash }

/-- The blocks of the selected chain that a flush looks at: those below the range are skipped, the
first one above it ends the loop. -/
def flushRange (blocks : FinMap Hash32 VolatileBlock) (start upTo : Nat) :
    List Hash32 → List TipInfo
  | [] => []
  | h :: chain =>
    match blocks.lookup h with
    | none => flushRange blocks start upTo chain
    | some b =>
      if b.blockNo + 1 < start then flushRange blocks start upTo chain
      else if b.blockNo > upTo then []
      else ⟨b.slot, h, b.blockNo⟩ :: flushRange blocks start upTo chain

/-- The blocks that a flush moves. The bounded scan collects one block before it looks at its
limit. -/
def toFinalize (upTo : Nat) (limit : Option Nat) : List TipInfo :=
  let range := flushRange s.volatile.blocks (s.lastFlushedBlockNo + 1) upTo s.volatile.selectedChain
  let candidates := limit.elim range fun n => range.take (max n 1)
  candidates.filter fun t => t.hash ∉ s.immutableBlocks

/-- Move the blocks deeper than `retain` to the immutable database, `limit` of them at most. The tip
of the volatile database is not recomputed. -/
def flushRetaining (retain : Nat) (limit : Option Nat) : ChainStore :=
  match s.volatile.tip with
  | none => s
  | some tip =>
    if tip.blockNo ≤ retain then s
    else
      let moved := s.toFinalize (tip.blockNo - retain) limit
      match moved.getLast? with
      | none => s
      | some last =>
        { s with
          immutable := s.immutable ++ moved
          immutableTip := some last
          immutableBlocks := s.immutableBlocks ∪ (moved.map (·.hash)).toFinset
          lastFlushedBlockNo := last.blockNo
          volatile := s.volatile.removeBlocksInMemory (moved.map (·.hash)) }

/-- `flush_to_immutable`. -/
def flushToImmutable : ChainStore := s.flushRetaining s.securityParamK none

/-- `flush_to_immutable_batch_retain`. -/
def flushToImmutableBatchRetain (retainBlocks maxBlocks : Nat) : ChainStore :=
  s.flushRetaining retainBlocks (some maxBlocks)

/-- The log is rewritten after a collection. -/
def gcVolatile (expired : List Hash32) : ChainStore :=
  let volatile := s.volatile.gcOrphanedBlocks expired
  { s with volatile, wal := if expired = [] then s.wal else volatile.blocks }

def removeVolatileBlock (hash : Hash32) : ChainStore :=
  { s with volatile := s.volatile.removeBlock hash }

def clearVolatile : ChainStore :=
  { s with volatile := { VolatileDB.empty with unknownPrev := s.volatile.unknownPrev }, wal := ∅ }

/-- Append blocks to the immutable database (import, and the copy of the oldest volatile block). -/
def putBlocksBatch (blocks : List TipInfo) : ChainStore :=
  match blocks.getLast? with
  | none => s
  | some last =>
    { s with
      immutable := s.immutable ++ blocks
      immutableTip := some last
      immutableBlocks := s.immutableBlocks ∪ (blocks.map (·.hash)).toFinset }

/-- Close and open. `replayed` are the entries of the log that the replay reads, in its order, and
`kept` is the length of the immutable chain that is found. -/
def reopen (table : Listing.Enumeration Hash32) (replayed : List Hash32) (kept : Nat) :
    ChainStore :=
  let disk := onDisk s.securityParamK s.wal (s.immutable.take kept)
  let volatile := VolatileDB.openFrom table
    (replayed.filterMap fun h => (s.wal.lookup h).map (Prod.mk h))
  match disk.immutableTip with
  | none => { disk with volatile }
  | some tip =>
    let pruned := volatile.pruneUnreachableFrom table tip.hash
    { disk with
      volatile := pruned
      -- the log is rewritten when something was pruned
      wal := if pruned.blocks.size = volatile.blocks.size then s.wal else pruned.blocks }

end ChainStore

/-- A call of the chain database. -/
inductive ChainOp where
  | addBlock (published : Option LoeState) (block : NewBlock)
  | addUngated (block : NewBlock)
  | switchToFork (newTipHash : Hash32) (ledgerCanReachOrigin : Bool)
  | rollbackToPoint (point : Point)
  | truncateSelectionToDepth (maxDepth : Nat)
  | flushToImmutable
  | flushToImmutableBatchRetain (retainBlocks maxBlocks : Nat)
  | gcVolatile (expired : List Hash32)
  | removeVolatileBlock (hash : Hash32)
  | clearVolatile
  | compactWal
  | putBlocksBatch (blocks : List TipInfo)
  | reopen (table : Listing.Enumeration Hash32) (replayed : List Hash32) (kept : Nat)

namespace ChainStore

def apply (s : ChainStore) : ChainOp → ChainStore
  | .addBlock published block => s.addBlock published block
  | .addUngated block => s.addUngated block
  | .switchToFork newTipHash ledgerCanReachOrigin => s.switchToFork newTipHash ledgerCanReachOrigin
  | .rollbackToPoint point => s.rollbackToPoint point
  | .truncateSelectionToDepth maxDepth =>
    { s with volatile := s.volatile.truncateSelectionToDepth maxDepth }
  | .flushToImmutable => s.flushToImmutable
  | .flushToImmutableBatchRetain retainBlocks maxBlocks =>
    s.flushToImmutableBatchRetain retainBlocks maxBlocks
  | .gcVolatile expired => s.gcVolatile expired
  | .removeVolatileBlock hash => s.removeVolatileBlock hash
  | .clearVolatile => s.clearVolatile
  | .compactWal => { s with wal := s.volatile.blocks }
  | .putBlocksBatch blocks => s.putBlocksBatch blocks
  | .reopen table replayed kept => s.reopen table replayed kept

def run (s : ChainStore) (ops : List ChainOp) : ChainStore := ops.foldl apply s

end ChainStore

end Dugite
