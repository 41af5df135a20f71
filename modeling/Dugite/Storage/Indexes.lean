import Mathlib.Data.Finset.Sort
import Dugite.Lib.Grouping
import Dugite.Storage.ParentLinks

/-!
# The indexes of the volatile database

`IndexedDB` is the volatile database with its index by slot (every stored block) and by block number
(the selected chain). Each of the operations keeps four indexes by hand: the successor map, the set
of leaves, and these two. `Exact` says that they are the ones that the stored blocks and the
selected chain give.

The first three are kept by every operation, as long as no hash is inserted a second time. The index
by number is kept by those that derive it anew. A removal, a rollback or a truncation forgets the
numbers of the blocks it takes off the selected chain, also when a block with the same number stays
on it: the block before a Byron boundary block. `Safe` says when that does not happen;
`numbered_iff_safeCut` and `numbered_iff_safeRemoval` say that the index by number goes wrong in no
other way.

The schedule of the garbage collector is left out, so that any blocks may be the expired ones; the
removals that rewrite the log and those that do not are one operation.
-/

namespace Dugite

open List VolatileDB Option Finmap VolatileBlock FinMap

/-- The volatile database with its two indexes. -/
structure IndexedDB extends VolatileDB where
  /-- The blocks of a slot, in the order of their insertion. -/
  slotIndex : FinMap Nat (List Hash32)
  /-- The index by block number of the selected chain. -/
  blockNoIndex : FinMap Nat Hash32

namespace IndexedDB

open Grouping

variable (db : IndexedDB)

def empty : IndexedDB := ⟨.empty, ∅, ∅⟩

/-! ## Insertion -/

/-- A block joins the indexes, and the selected chain where it may extend it. -/
def addBlockGated (hash : Hash32) (slot blockNo : Nat) (prevHash : Hash32)
    (header : Option BlockHeader) (allowExtend : Bool) : IndexedDB × Bool :=
  let added := db.toVolatileDB.addBlockGated hash slot blockNo prevHash header allowExtend
  ({ toVolatileDB := added.1
     slotIndex := fileList hash slot db.slotIndex
     blockNoIndex :=
      if added.2 then insert blockNo hash db.blockNoIndex else db.blockNoIndex }, added.2)

/-! ## Removal -/

/-- Forget the number of a block, unless the number stands for another block. -/
def forget (blocks : FinMap Hash32 VolatileBlock) (index : FinMap Nat Hash32) (hash : Hash32) :
    FinMap Nat Hash32 :=
  (blocks.lookup hash).elim index fun block => index.eraseEntry block.blockNo hash

section
variable (hash : Hash32)

/-- Take a block out of everything but the index by slot; the selected chain and the tip are left to
the caller. -/
def unlink : IndexedDB :=
  { db with
    toVolatileDB := db.toVolatileDB.dropBlock hash
    blockNoIndex := forget db.blocks db.blockNoIndex hash }

/-- Take a block out of the index by slot. -/
def unslot : FinMap Nat (List Hash32) :=
  (db.blocks.lookup hash).elim db.slotIndex fun block => unfileList hash block.slot db.slotIndex

/-- Take a block out of all indexes. -/
def discard : IndexedDB := { db.unlink hash with slotIndex := db.unslot hash }

/-- The tip is not recomputed. -/
def removeBlock : IndexedDB :=
  if db.hasBlock hash then
    { db.discard hash with selectedChain := db.selectedChain.filter fun h => h ≠ hash }
  else db

end

/-- The tip is not recomputed. -/
def removeBlocksInMemory (hashes : List Hash32) : IndexedDB :=
  { hashes.foldl discard db with
    selectedChain := db.selectedChain.filter fun h => h ∉ hashes }

/-- Remove what cannot be reached from the anchor. -/
def pruneUnreachableFrom (table : Listing.Enumeration Hash32) (anchor : Hash32) : IndexedDB :=
  db.removeBlocksInMemory ((table.list db.blocks.keys).filter fun h => h ∉ db.reachable anchor)

/-- Take out a block whose slot has been taken out of the index. -/
def purge (hash : Hash32) : IndexedDB := { db.unlink hash with headers := db.headers.erase hash }

/-- Take out all blocks of a slot. -/
def takeSlot (slot : Nat) : IndexedDB :=
  match db.slotIndex.lookup slot with
  | none => db
  | some hashes => hashes.foldl purge { db with slotIndex := db.slotIndex.erase slot }

/-- The tip is not recomputed. -/
def removeBlocksUpToSlot (slot : Nat) : IndexedDB :=
  let slots := (db.slotIndex.keys.filter fun s => s ≤ slot).sort (· ≤ ·)
  let removed := slots.flatMap fun s => (db.slotIndex.lookup s).getD []
  { slots.foldl takeSlot db with
    selectedChain := db.selectedChain.filter fun h => h ∉ removed }

/-- A collection does not look at the index by number. -/
def collect (hash : Hash32) : IndexedDB :=
  if hash ∈ db.selectedChain then db
  else { db with toVolatileDB := db.toVolatileDB.dropBlock hash, slotIndex := db.unslot hash }

/-- Collect the expired blocks one by one. -/
def gcOrphanedBlocks (expired : List Hash32) : IndexedDB := expired.foldl collect db

def clear : IndexedDB := { empty with unknownPrev := db.unknownPrev }

/-! ## The selected chain -/

/-- The numbers of the dropped blocks are forgotten, whichever blocks they stand for. -/
def truncateSelectionToDepth (maxDepth : Nat) : IndexedDB :=
  if db.selectedChain.length ≤ maxDepth then db
  else
    { db with
      toVolatileDB := db.toVolatileDB.truncateSelectionToDepth maxDepth
      blockNoIndex := db.blockNoIndex.eraseAll ((db.selectedChain.drop maxDepth).filterMap fun h =>
        (db.blocks.lookup h).map (·.blockNo)) }

/-- Cut the selected chain back; the blocks stay. -/
def rollbackToPoint (targetSlot : Nat) (targetHash : Option Hash32) : IndexedDB :=
  let kept := db.rollbackChain targetSlot targetHash
  { db with
    toVolatileDB := db.toVolatileDB.rollbackToPoint targetSlot targetHash
    blockNoIndex :=
      (db.selectedChain.drop kept.length).reverse.foldl (forget db.blocks) db.blockNoIndex }

/-- The index by number that a chain gives. -/
def indexChain (blocks : FinMap Hash32 VolatileBlock) (chain : List Hash32) : FinMap Nat Hash32 :=
  insertAll
    (chain.filterMap fun h => (blocks.lookup h).map fun b => (b.blockNo, h)) ∅

/-- Select a chain anew, as on opening. -/
def rebuildSelectedChain (table : Listing.Enumeration Hash32) : IndexedDB :=
  let volatile := db.toVolatileDB.rebuildSelectedChain table
  { db with
    toVolatileDB := volatile
    blockNoIndex := indexChain db.blocks volatile.selectedChain }

/-- The slots after the target are taken out, newest first, then what else stands at its slot. -/
def rollbackAndPrune (table : Listing.Enumeration Hash32) (targetSlot : Nat)
    (targetHash : Option Hash32) : IndexedDB :=
  let slots := (db.slotIndex.keys.filter fun s => wrapAdd targetSlot 1 ≤ s).sort (· ≤ ·)
  let atTarget := targetHash.elim [] fun target =>
    ((db.slotIndex.lookup targetSlot).getD []).filter fun h => h ≠ target
  let pruned := slots.reverse.foldl takeSlot db
  (atTarget.foldl removeBlock pruned).rebuildSelectedChain table

/-- Switch the selected chain; the indexes do not depend on it. -/
def switchChain (newTipHash : Hash32) (immutableAnchor : Option (Hash32 × Nat)) (maxRollback : Nat)
    (allowGenesisAnchor : Bool) : Option (SwitchPlan × IndexedDB) :=
  (db.toVolatileDB.switchChain newTipHash immutableAnchor maxRollback allowGenesisAnchor).map
    fun (plan, volatile) =>
      (plan, { db with
        toVolatileDB := volatile
        blockNoIndex := indexChain db.blocks volatile.selectedChain })

end IndexedDB

/-- An operation on the volatile database. A replay of the log is its insertions and a rebuild. -/
inductive VolatileOp where
  | addBlock (hash : Hash32) (slot blockNo : Nat) (prevHash : Hash32) (header : Option BlockHeader)
      (allowExtend : Bool)
  | truncateSelectionToDepth (maxDepth : Nat)
  | removeBlock (hash : Hash32)
  | removeBlocksByHashes (hashes : List Hash32)
  | pruneUnreachableFrom (table : Listing.Enumeration Hash32) (anchor : Hash32)
  | removeBlocksUpToSlot (slot : Nat)
  | rollbackToPoint (targetSlot : Nat) (targetHash : Option Hash32)
  | rollbackAndPrune (table : Listing.Enumeration Hash32) (targetSlot : Nat)
      (targetHash : Option Hash32)
  | switchChain (newTipHash : Hash32) (immutableAnchor : Option (Hash32 × Nat)) (maxRollback : Nat)
      (allowGenesisAnchor : Bool)
  | rebuildSelectedChain (table : Listing.Enumeration Hash32)
  | gcOrphanedBlocks (expired : List Hash32)
  | clear

namespace IndexedDB

open Grouping

/-- One operation on the database. -/
def apply (db : IndexedDB) : VolatileOp → IndexedDB
  | .addBlock hash slot blockNo prevHash header allowExtend =>
    (db.addBlockGated hash slot blockNo prevHash header allowExtend).1
  | .truncateSelectionToDepth maxDepth => db.truncateSelectionToDepth maxDepth
  | .removeBlock hash => db.removeBlock hash
  | .removeBlocksByHashes hashes => db.removeBlocksInMemory hashes
  | .pruneUnreachableFrom table anchor => db.pruneUnreachableFrom table anchor
  | .removeBlocksUpToSlot slot => db.removeBlocksUpToSlot slot
  | .rollbackToPoint targetSlot targetHash => db.rollbackToPoint targetSlot targetHash
  | .rollbackAndPrune table targetSlot targetHash =>
    db.rollbackAndPrune table targetSlot targetHash
  | .switchChain newTipHash immutableAnchor maxRollback allowGenesisAnchor =>
    ((db.switchChain newTipHash immutableAnchor maxRollback allowGenesisAnchor).map (·.2)).getD db
  | .rebuildSelectedChain table => db.rebuildSelectedChain table
  | .gcOrphanedBlocks expired => db.gcOrphanedBlocks expired
  | .clear => db.clear

def run (db : IndexedDB) (ops : List VolatileOp) : IndexedDB := ops.foldl apply db

/-! ## What the indexes should be -/

section
variable (blocks : FinMap Hash32 VolatileBlock)

/-- The stored blocks with a given parent. -/
abbrev storedChildren (hash : Hash32) : Finset Hash32 := group prevHash blocks hash

/-- The stored blocks without stored children. -/
def storedLeaves : Finset Hash32 := blocks.keys.filter fun h => storedChildren blocks h = ∅

/-- The block number of a stored block. -/
def numberOf (hash : Hash32) : Option Nat := (blocks.lookup hash).map (·.blockNo)

/-- The last block of a chain with a given number. -/
def latest (chain : List Hash32) (number : Option Nat) : Option Hash32 :=
  (chain.filter fun h => numberOf blocks h = number).getLast?

end

/-- The successor map and the leaves are those of the stored blocks. -/
structure Linked (db : VolatileDB) : Prop where
  successors : Files prevHash db.blocks db.successors
  leaves : db.leaves = storedLeaves db.blocks

variable (db : IndexedDB)

/-- The index by number is that of the selected chain. -/
def Numbered : Prop := ∀ n, db.blockNoIndex.lookup n = latest db.blocks db.selectedChain (some n)

/-- The four indexes are the ones that the stored blocks and the selected chain give. -/
structure Exact (db : IndexedDB) : Prop where
  linked : Linked db.toVolatileDB
  slots : FilesList slot db.blocks db.slotIndex
  numbers : Numbered db

/-! ## Operations that keep them -/

/-- No block after `kept` has the number of one in it. -/
def SafeCut (kept dropped : List Hash32) : Prop :=
  ∀ h ∈ dropped, ∀ x ∈ kept, numberOf db.blocks x ≠ numberOf db.blocks h

/-- With the latest block of a number, all blocks with the number go. -/
def SafeRemoval (gone : Hash32 → Bool) : Prop :=
  ∀ h, gone h → latest db.blocks db.selectedChain (numberOf db.blocks h) = some h →
    ∀ x ∈ db.selectedChain, numberOf db.blocks x = numberOf db.blocks h → gone x

/-- A hash is not inserted while it is stored, and no number is lost that stays on the selected
chain. -/
def Safe : VolatileOp → Prop
  | .addBlock hash _ _ _ _ _ => db.blocks.lookup hash = none
  | .truncateSelectionToDepth maxDepth =>
    SafeCut db (db.selectedChain.take maxDepth) (db.selectedChain.drop maxDepth)
  | .removeBlock hash => SafeRemoval db fun h => h = hash
  | .removeBlocksByHashes hashes => SafeRemoval db fun h => h ∈ hashes
  | .pruneUnreachableFrom _ anchor => SafeRemoval db fun h => h ∉ db.reachable anchor
  | .removeBlocksUpToSlot slot =>
    SafeRemoval db fun h => (db.blocks.lookup h).any fun b => b.slot ≤ slot
  | .rollbackToPoint targetSlot targetHash =>
    let kept := db.rollbackChain targetSlot targetHash
    SafeCut db kept (db.selectedChain.drop kept.length)
  | .rollbackAndPrune _ _ _ => True
  | .switchChain _ _ _ _ => True
  | .rebuildSelectedChain _ => True
  | .gcOrphanedBlocks _ => True
  | .clear => True

/-- Every operation is safe where it is applied. -/
def SafeRun (db : IndexedDB) : List VolatileOp → Prop
  | [] => True
  | op :: ops => Safe db op ∧ SafeRun (db.apply op) ops

/-! ## The successor map and the leaves -/

section
variable {blocks : FinMap Hash32 VolatileBlock} {db : VolatileDB} {hash : Hash32}

theorem mem_storedLeaves {h : Hash32} :
    h ∈ storedLeaves blocks ↔ (blocks.lookup h).isSome ∧ storedChildren blocks h = ∅ := by
  rw [storedLeaves, Finset.mem_filter, Finmap.mem_keys, Finmap.lookup_isSome]

theorem dropBlock_of_lookup {block : VolatileBlock} (hb : db.blocks.lookup hash = some block) :
    (db.dropBlock hash).successors = unfile hash block.prevHash db.successors ∧
      (db.dropBlock hash).leaves = if ((db.blocks.erase hash).lookup block.prevHash).isSome ∧
            ((db.successors.lookup block.prevHash).getD ∅).erase hash = ∅ then
          insert block.prevHash (db.leaves.erase hash)
        else db.leaves.erase hash := by
  rw [dropBlock, hb]
  exact ⟨rfl, rfl⟩

theorem Linked.dropBlock (h : Linked db) (hash : Hash32) : Linked (db.dropBlock hash) := by
  cases hb : db.blocks.lookup hash with
  | none =>
    rw [VolatileDB.dropBlock, hb]
    exact h
  | some block =>
  obtain ⟨hsucc, hleaves⟩ := dropBlock_of_lookup hb
  refine ⟨?_, ?_⟩
  · rw [dropBlock_blocks, hsucc]
    exact h.successors.unfile hb
  rw [hleaves, h.successors.getD, ← group_erase, dropBlock_blocks, h.leaves]
  have hchild : hash ∈ storedChildren db.blocks block.prevHash := mem_group.2 ⟨block, hb, rfl⟩
  ext x
  rw [mem_storedLeaves]
  by_cases hx : x = block.prevHash
  · -- the parent is a leaf now if it was the last child
    subst hx
    have hnot : block.prevHash ∉ storedLeaves db.blocks := by
      rw [mem_storedLeaves]
      rintro ⟨-, hempty⟩
      rw [hempty] at hchild
      exact Finset.notMem_empty _ hchild
    split
    · next hnow => simpa using hnow
    · next hnow =>
      refine iff_of_false (fun hmem => hnot (Finset.mem_of_mem_erase hmem)) hnow
  · have hsame : storedChildren (db.blocks.erase hash) x = storedChildren db.blocks x :=
      group_erase_of_ne hb hx
    have hrest : x ∈ (storedLeaves db.blocks).erase hash ↔
        ((db.blocks.erase hash).lookup x).isSome ∧ storedChildren db.blocks x = ∅ := by
      rw [Finset.mem_erase, mem_storedLeaves, lookup_erase_ite]
      by_cases hself : x = hash <;> simp [hself]
    rw [hsame, ← hrest]
    split
    · rw [Finset.mem_insert, or_iff_right hx]
    · rfl

theorem addBlockGated_links (db : VolatileDB) (hash : Hash32) (slot blockNo : Nat)
    (prevHash : Hash32) (header : Option BlockHeader) (allowExtend : Bool) :
    let db' := (db.addBlockGated hash slot blockNo prevHash header allowExtend).1
    db'.successors = file hash prevHash db.successors ∧ db'.leaves =
        if (db'.successors.lookup hash).getD ∅ = ∅ then insert hash (db.leaves.erase prevHash)
        else db.leaves.erase prevHash := by
  rw [VolatileDB.addBlockGated, VolatileDB.insertBlockInternal]
  split <;> exact ⟨rfl, rfl⟩

theorem Linked.addBlockGated (h : Linked db) (hnew : db.blocks.lookup hash = none)
    (slot blockNo : Nat) (prevHash : Hash32) (header : Option BlockHeader) (allowExtend : Bool) :
    Linked (db.addBlockGated hash slot blockNo prevHash header allowExtend).1 := by
  obtain ⟨hsucc, hleaves⟩ := addBlockGated_links db hash slot blockNo prevHash header allowExtend
  have hfiles := h.successors.file hnew ⟨slot, blockNo, prevHash⟩
  refine ⟨?_, ?_⟩
  · rw [addBlockGated_blocks, hsucc]
    exact hfiles
  rw [hleaves, hsucc, hfiles.getD, addBlockGated_blocks, h.leaves]
  ext x
  have hgroup : storedChildren (insert hash ⟨slot, blockNo, prevHash⟩ db.blocks) x =
      if prevHash = x then insert hash (storedChildren db.blocks x)
      else storedChildren db.blocks x :=
    group_insert hnew _ x
  rw [mem_storedLeaves, lookup_insert_ite]
  by_cases hx : x = hash
  · -- the new block is a leaf unless a child came before it
    subst hx
    have hnot : x ∉ storedLeaves db.blocks := by
      rw [mem_storedLeaves, hnew]
      exact fun hmem => Bool.noConfusion hmem.1
    rw [if_pos rfl]
    split
    · next hnow => simp [hnow]
    · next hnow =>
      refine iff_of_false (fun hmem => hnot (Finset.mem_of_mem_erase hmem)) fun hmem => hnow hmem.2
  · have hrest : x ∈ (storedLeaves db.blocks).erase prevHash ↔ (db.blocks.lookup x).isSome ∧
        storedChildren (insert hash ⟨slot, blockNo, prevHash⟩ db.blocks) x = ∅ := by
      rw [Finset.mem_erase, mem_storedLeaves, hgroup]
      by_cases hself : x = prevHash
      · simp [hself]
      · rw [if_neg (Ne.symm hself)]
        simp [hself]
    rw [if_neg hx, ← hrest]
    split
    · rw [Finset.mem_insert, or_iff_right hx]
    · rfl

end

/-! ## The latest block with a number -/

section
variable {blocks : FinMap Hash32 VolatileBlock} {chain : List Hash32} {h : Hash32} {n : Nat}
  {number : Option Nat}

theorem numberOf_of_latest (hlast : latest blocks chain number = some h) :
    h ∈ chain ∧ numberOf blocks h = number := by
  have hmem := mem_of_getLast? hlast
  rw [mem_filter] at hmem
  exact ⟨hmem.1, of_decide_eq_true hmem.2⟩

theorem latest_append (kept dropped : List Hash32) (number : Option Nat) :
    latest blocks (kept ++ dropped) number =
      (latest blocks dropped number).or (latest blocks kept number) := by
  rw [latest, filter_append, getLast?_append]
  rfl

theorem latest_eq_none_iff :
    latest blocks chain number = none ↔ ∀ x ∈ chain, numberOf blocks x ≠ number := by
  rw [latest, getLast?_eq_none_iff, filter_eq_nil_iff]
  simp

theorem latest_congr {blocks' : FinMap Hash32 VolatileBlock}
    (hsame : ∀ x ∈ chain, blocks'.lookup x = blocks.lookup x) (number : Option Nat) :
    latest blocks' chain number = latest blocks chain number := by
  rw [latest, latest, filter_congr]
  intro x hx
  rw [numberOf, numberOf, hsame x hx]

theorem lookup_indexChain (n : Nat) :
    (indexChain blocks chain).lookup n = latest blocks chain (some n) := by
  have hentries : ((chain.filterMap fun h => (blocks.lookup h).map fun b => (b.blockNo, h)).filter
      fun e => e.1 = n).map (·.2) = chain.filter fun h => numberOf blocks h = some n := by
    induction chain with
    | nil => rfl
    | cons h chain ih =>
      rw [filterMap_cons, filter_cons, numberOf]
      cases blocks.lookup h with
      | none => simpa using ih
      | some b =>
        by_cases hn : b.blockNo = n
        · simpa [hn] using ih
        · simpa [hn] using ih
  rw [indexChain, lookup_insertAll, lookup_empty, or_none, latest, ← hentries, getLast?_map]

/-- Whether the last element with a property is the last element, if that has the property. -/
theorem getLast?_filter_eq_iff {α : Type*} (p : α → Bool) (l : List α) :
    l.getLast?.filter p = (l.filter p).getLast? ↔
      ∀ a, l.getLast? = some a → p a = false → ∀ x ∈ l, p x = false := by
  rcases eq_nil_or_concat l with rfl | ⟨init, a, rfl⟩
  · simp
  rw [concat_eq_append, getLast?_concat, filter_append]
  cases hp : p a with
  | true => simp [hp, filter_some]
  | false =>
  simp only [filter_some, hp, filter_cons, filter_nil, Bool.false_eq_true,
    if_false, append_nil, some.injEq, forall_eq', forall_true_left]
  rw [eq_comm, getLast?_eq_none_iff, filter_eq_nil_iff]
  simp [or_imp, forall_and, hp]

end

/-! ## The index by number -/

variable {db db' : IndexedDB} {kept dropped : List Hash32}

/-- The blocks of the selected chain are stored. -/
def ChainStored (db : VolatileDB) : Prop := ∀ x ∈ db.selectedChain, (db.blocks.lookup x).isSome

variable (h : Numbered db) (hstored : ChainStored db.toVolatileDB)
include h hstored

theorem numbered_iff_safeCut
    (hchain : db.selectedChain = kept ++ dropped) (hchain' : db'.selectedChain = kept)
    (hblocks : db'.blocks = db.blocks) (hindex : ∀ n, db'.blockNoIndex.lookup n =
      if ∃ x ∈ dropped, numberOf db.blocks x = some n then none else db.blockNoIndex.lookup n) :
    Numbered db' ↔ SafeCut db kept dropped := by
  have hold : ∀ n, (¬ ∃ x ∈ dropped, numberOf db.blocks x = some n) →
      db.blockNoIndex.lookup n = latest db.blocks kept (some n) := by
    intro n hnone
    have hlatest := latest_eq_none_iff.2 fun x hx heq => hnone ⟨x, hx, heq⟩
    rw [h n, hchain, latest_append, hlatest, none_or]
  constructor
  · intro hnumbered x hx y hy heq
    have hsome : ∃ n, numberOf db.blocks x = some n := by
      obtain ⟨b, hb⟩ := isSome_iff_exists.1 (hstored x (hchain ▸ mem_append_right _ hx))
      exact ⟨b.blockNo, by rw [numberOf, hb]; rfl⟩
    obtain ⟨n, hn⟩ := hsome
    have hnow := hnumbered n
    rw [hindex, if_pos ⟨x, hx, hn⟩, hblocks, hchain'] at hnow
    exact latest_eq_none_iff.1 hnow.symm y hy (heq.trans hn)
  · intro hsafe n
    rw [hindex, hblocks, hchain']
    split
    · next hex =>
      obtain ⟨x, hx, hn⟩ := hex
      exact (latest_eq_none_iff.2 fun y hy => hn ▸ hsafe x hx y hy).symm
    · next hnone => exact hold n hnone

theorem numbered_iff_safeRemoval {gone : Hash32 → Bool}
    (hchain : db'.selectedChain = db.selectedChain.filter fun x => !gone x)
    (hblocks : ∀ x ∈ db.selectedChain, gone x = false → db'.blocks.lookup x = db.blocks.lookup x)
    (hindex : ∀ n, db'.blockNoIndex.lookup n = (db.blockNoIndex.lookup n).filter
      fun x => !(gone x && numberOf db.blocks x = some n)) :
    Numbered db' ↔ SafeRemoval db gone := by
  have hlatest : ∀ n, latest db'.blocks db'.selectedChain (some n) =
      ((db.selectedChain.filter fun x => numberOf db.blocks x = some n).filter
        fun x => !gone x).getLast? := by
    intro n
    have hsame : ∀ x ∈ db.selectedChain.filter fun x => !gone x,
        db'.blocks.lookup x = db.blocks.lookup x := by
      intro x hx
      rw [mem_filter] at hx
      exact hblocks x hx.1 (by simpa using hx.2)
    rw [hchain, latest_congr hsame, latest, filter_comm]
  have hnumbers : ∀ n, db'.blockNoIndex.lookup n =
      (latest db.blocks db.selectedChain (some n)).filter fun x => !gone x := by
    intro n
    rw [hindex, h n]
    cases hlast : latest db.blocks db.selectedChain (some n) with
    | none => rfl
    | some x => simp [filter_some, (numberOf_of_latest hlast).2]
  have hstep : Numbered db' ↔ ∀ n a, latest db.blocks db.selectedChain (some n) = some a →
      gone a → ∀ x ∈ db.selectedChain, numberOf db.blocks x = some n → gone x := by
    refine forall_congr' fun n => ?_
    rw [hnumbers, hlatest, latest, getLast?_filter_eq_iff]
    simp
  rw [hstep]
  constructor
  · intro hall x hx hlast y hy heq
    obtain ⟨b, hb⟩ := isSome_iff_exists.1 (hstored x (numberOf_of_latest hlast).1)
    have hn : numberOf db.blocks x = some b.blockNo := by rw [numberOf, hb]; rfl
    rw [hn] at hlast heq
    exact hall b.blockNo x hlast hx y hy heq
  · intro hsafe n a hlast ha y hy hn
    have hnumber := (numberOf_of_latest hlast).2
    exact hsafe a ha (hnumber ▸ hlast) y hy (hn.trans hnumber.symm)

end IndexedDB

end Dugite
