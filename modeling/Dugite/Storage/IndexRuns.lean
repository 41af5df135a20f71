import Dugite.Lib.Runs
import Dugite.Storage.Indexes

/-!
# The indexes of the volatile database over whole runs

One lemma for each operation says when it keeps the indexes exact. What they share: a removal takes
its blocks out of the successor map, the leaves and the index by slot (`Filed`), whether it goes
hash by hash or slot by slot, and forgets each number that stands for one of them
(`foldl_unlinked`, `slotsTaken_foldl`). `indexes_exact_iff` puts the operations of a run together.
-/

namespace Dugite

open FinMap List VolatileDB Option IndexedDB VolatileBlock

namespace IndexedDB

open Grouping

/-! ## Removal -/

variable {db' : IndexedDB} {gone : Hash32 → Bool}

section
variable {db : IndexedDB} (blocks : FinMap Hash32 VolatileBlock) (hashes : List Hash32)
  (index : FinMap Nat Hash32) (hash : Hash32) {α : Type*}

theorem optionFilter_congr {o : Option α} {p q : α → Bool}
    (h : ∀ a, o = some a → p a = q a) : o.filter p = o.filter q := by
  cases o with
  | none => rfl
  | some a => rw [filter_some, filter_some, h a rfl]

theorem optionFilter_eq_self {o : Option α} {p : α → Bool}
    (h : ∀ a, o = some a → p a = true) : o.filter p = o := by
  cases o with
  | none => rfl
  | some a => rw [filter_some, if_pos (h a rfl)]

/-- Forgetting a block clears its number if it is filed there. -/
theorem lookup_forget (n : Nat) : (forget blocks index hash).lookup n =
      (index.lookup n).filter fun w => !(w = hash && numberOf blocks w = some n) := by
  rw [forget]
  cases hb : blocks.lookup hash with
  | none =>
    refine (optionFilter_eq_self fun w _ => ?_).symm
    by_cases hw : w = hash
    · subst hw
      simp [numberOf, hb]
    · simp [hw]
  | some b =>
    rw [elim_some, lookup_eraseEntry]
    refine optionFilter_congr fun w _ => ?_
    by_cases hw : w = hash
    · subst hw
      simp [numberOf, hb, eq_comm]
    · simp [hw]

theorem lookup_foldl_forget (n : Nat) : (hashes.foldl (forget blocks) index).lookup n =
      (index.lookup n).filter fun w => !(w ∈ hashes && numberOf blocks w = some n) := by
  induction hashes generalizing index with
  | nil => exact (optionFilter_eq_self fun w _ => by simp).symm
  | cons hash hashes ih =>
    rw [foldl_cons, ih, lookup_forget, Option.filter_filter]
    refine optionFilter_congr fun w _ => ?_
    by_cases hw : w = hash
    · cases hn : decide (numberOf blocks w = some n) <;> simp [hw]
    · simp [hw]

/-- Blocks that are dropped one after the other. -/
theorem foldl_unlinked {f : IndexedDB → Hash32 → IndexedDB}
    (hblocks : ∀ db x, (f db x).blocks = db.blocks.erase x)
    (hindex : ∀ db x, (f db x).blockNoIndex = forget db.blocks db.blockNoIndex x)
    (hashes : List Hash32) (db : IndexedDB) :
    (hashes.foldl f db).blocks = db.blocks.eraseAll hashes ∧
      ∀ n, (hashes.foldl f db).blockNoIndex.lookup n = (db.blockNoIndex.lookup n).filter
        fun w => !(w ∈ hashes && numberOf db.blocks w = some n) := by
  induction hashes generalizing db with
  | nil =>
    refine ⟨rfl, fun n => ?_⟩
    exact (optionFilter_eq_self fun w _ => by simp).symm
  | cons hash hashes ih =>
    obtain ⟨hb, hn⟩ := ih (f db hash)
    refine ⟨by rw [foldl_cons, hb, hblocks]; rfl, fun n => ?_⟩
    rw [foldl_cons, hn, hindex, lookup_forget, Option.filter_filter, hblocks]
    refine optionFilter_congr fun w _ => ?_
    by_cases hw : w = hash
    · subst hw
      simp [numberOf, Finmap.lookup_erase]
    · simp [hw, numberOf, Finmap.lookup_erase_ne]

/-- The indexes over all stored blocks are exact. -/
structure Filed (db : IndexedDB) : Prop where
  linked : Linked db.toVolatileDB
  slots : FilesList slot db.blocks db.slotIndex

theorem Exact.filed (h : Exact db) : Filed db := { h with }

/-- Of the indexes only that of the numbers can fail. -/
theorem exact_iff_numbered (h : Filed db) : Exact db ↔ Numbered db :=
  ⟨fun he => he.numbers, fun hn => ⟨h.linked, h.slots, hn⟩⟩

theorem unlink_blocks : (db.unlink hash).blocks = db.blocks.erase hash := dropBlock_blocks hash

theorem filesList_unslot (h : FilesList slot db.blocks db.slotIndex) (hash : Hash32) :
    FilesList slot (db.blocks.erase hash) (db.unslot hash) := by
  rw [unslot]
  cases hb : db.blocks.lookup hash with
  | none =>
    rw [erase_of_lookup_none hb]
    exact h
  | some block => exact h.unfileList hb

theorem Filed.discard (h : Filed db) (hash : Hash32) : Filed (db.discard hash) where
  linked := h.linked.dropBlock hash
  slots := by
    have hblocks : (db.discard hash).blocks = db.blocks.erase hash := unlink_blocks hash
    rw [hblocks]
    exact filesList_unslot h.slots hash

/-- The indexes over all stored blocks do not depend on the rest. -/
theorem Filed.of_eq (h : Filed db) (hblocks : db'.blocks = db.blocks)
    (hsucc : db'.successors = db.successors) (hleaves : db'.leaves = db.leaves)
    (hslots : db'.slotIndex = db.slotIndex) : Filed db' where
  linked := ⟨by rw [hblocks, hsucc]; exact h.linked.successors,
    by rw [hblocks, hleaves]; exact h.linked.leaves⟩
  slots := by rw [hblocks, hslots]; exact h.slots

/-- What is left of a database when the blocks `gone` names are removed. -/
structure Removed (db : IndexedDB) (gone : Hash32 → Bool) (db' : IndexedDB) : Prop where
  filed : Filed db'
  chain : db'.selectedChain = db.selectedChain.filter fun x => !gone x
  blocks : ∀ x, gone x = false → db'.blocks.lookup x = db.blocks.lookup x
  numbers : ∀ n, db'.blockNoIndex.lookup n = (db.blockNoIndex.lookup n).filter
    fun x => !(gone x && numberOf db.blocks x = some n)

/-- A removal in memory takes the listed blocks. -/
theorem removed_removeBlocksInMemory (h : Filed db) (hashes : List Hash32) :
    Removed db (fun x => x ∈ hashes) (db.removeBlocksInMemory hashes) := by
  obtain ⟨hblocks, hnumbers⟩ := foldl_unlinked (f := discard)
    (fun db x => unlink_blocks x) (fun _ _ => rfl) hashes db
  have hfiled := foldlRecOn (motive := Filed) hashes _ h fun _ h hash _ => h.discard hash
  refine ⟨hfiled.of_eq rfl rfl rfl rfl, ?_, fun x hx => ?_, hnumbers⟩
  · exact filter_congr fun x _ => decide_not
  · change (hashes.foldl discard db).blocks.lookup x = _
    rw [hblocks, lookup_eraseAll, if_neg (of_decide_eq_false hx)]

/-- One block is a list of blocks. -/
theorem removeBlock_eq : db.removeBlock hash =
    if db.hasBlock hash then db.removeBlocksInMemory [hash] else db := by
  simp only [removeBlock, removeBlocksInMemory, foldl_cons, foldl_nil, mem_singleton, ne_eq]

theorem Filed.removeBlock (h : Filed db) (hash : Hash32) : Filed (db.removeBlock hash) := by
  rw [removeBlock_eq]
  split
  · exact (removed_removeBlocksInMemory h [hash]).filed
  · exact h

theorem linked_foldl_purge (h : Linked db.toVolatileDB) :
    Linked (hashes.foldl purge db).toVolatileDB := by
  refine foldlRecOn (motive := fun db : IndexedDB => Linked db.toVolatileDB) hashes _ h
    fun db h hash _ => ?_
  have hdrop := h.dropBlock hash
  exact { hdrop with }

/-- What is left when the blocks of some slots are taken out. -/
structure SlotsTaken (db : IndexedDB) (slots : List Nat) (db' : IndexedDB) : Prop where
  filed : Filed db'
  blocks : ∀ x, db'.blocks.lookup x = (db.blocks.lookup x).filter fun b => b.slot ∉ slots
  numbers : ∀ n, db'.blockNoIndex.lookup n = (db.blockNoIndex.lookup n).filter fun w =>
    !((db.blocks.lookup w).any (fun b => b.slot ∈ slots) && numberOf db.blocks w = some n)

theorem SlotsTaken.nil (h : Filed db) : SlotsTaken db [] db where
  filed := h
  blocks x := (optionFilter_eq_self fun b _ => by simp).symm
  numbers n := (optionFilter_eq_self fun w _ => by cases db.blocks.lookup w <;> simp).symm

/-- Taking a slot takes its blocks. -/
theorem slotsTaken_takeSlot (h : Filed db) (slot : Nat) :
    SlotsTaken db [slot] (db.takeSlot slot) := by
  have hmem : ∀ x, x ∈ (db.slotIndex.lookup slot).getD [] ↔
      (db.blocks.lookup x).any (fun b => b.slot = slot) := by
    intro x
    rw [h.slots.mem_iff]
    cases db.blocks.lookup x <;> simp
  rw [takeSlot]
  cases hslot : db.slotIndex.lookup slot with
  | none =>
    -- there is no block at this slot
    rw [hslot] at hmem
    have hno : ∀ x, (db.blocks.lookup x).any (fun b => b.slot = slot) = false := by
      intro x
      rw [← Bool.not_eq_true, ← hmem]
      exact not_mem_nil
    refine ⟨h, fun x => ?_, fun n => ?_⟩
    · have hx := hno x
      cases hb : db.blocks.lookup x with
      | none => rfl
      | some b => simpa [hb, filter_some] using hx
    · refine (optionFilter_eq_self fun w _ => ?_).symm
      simp only [mem_singleton, hno, Bool.false_and, Bool.not_false]
  | some hashes =>
    rw [hslot, getD_some] at hmem
    set cleared : IndexedDB := { db with slotIndex := db.slotIndex.erase slot } with hcleared
    obtain ⟨hblocks, hnumbers⟩ := foldl_unlinked (f := purge)
      (fun db x => unlink_blocks x) (fun _ _ => rfl) hashes cleared
    refine ⟨⟨linked_foldl_purge hashes h.linked, ?_⟩, fun x => ?_, fun n => ?_⟩
    · have hslots : (hashes.foldl purge cleared).slotIndex = cleared.slotIndex :=
        foldlRecOn (motive := fun db : IndexedDB => db.slotIndex = cleared.slotIndex) hashes _ rfl
          fun _ heq _ _ => heq
      rw [hblocks, hslots]
      exact h.slots.erase hslot
    · rw [hblocks, lookup_eraseAll, hcleared]
      cases hb : db.blocks.lookup x with
      | none => simp
      | some b =>
      have hx := hmem x
      rw [hb, any_some, decide_eq_true_iff] at hx
      by_cases hs : b.slot = slot
      · simp [hx.2 hs, hs, filter_some]
      · simp [mt hx.1 hs, hs, filter_some]
    · rw [hnumbers n, hcleared]
      refine optionFilter_congr fun w _ => ?_
      have hw : decide (w ∈ hashes) = (db.blocks.lookup w).any fun b => b.slot ∈ [slot] := by
        rw [Bool.eq_iff_iff, decide_eq_true_iff, hmem w]
        simp
      rw [hw]

theorem slotsTaken_foldl (h : Filed db) (slots : List Nat) :
    SlotsTaken db slots (slots.foldl takeSlot db) := by
  induction slots generalizing db with
  | nil => exact .nil h
  | cons slot slots ih =>
    have hfirst := slotsTaken_takeSlot h slot
    obtain ⟨hfiled, hblocks, hnumbers⟩ := ih hfirst.filed
    refine ⟨hfiled, fun x => ?_, fun n => ?_⟩
    · rw [foldl_cons, hblocks, hfirst.blocks, Option.filter_filter]
      exact optionFilter_congr fun b _ => by simp
    · rw [foldl_cons, hnumbers, hfirst.numbers, Option.filter_filter]
      refine optionFilter_congr fun w _ => ?_
      rw [hfirst.blocks, numberOf, numberOf, hfirst.blocks]
      cases db.blocks.lookup w with
      | none => simp
      | some b => by_cases hs : b.slot = slot <;> simp [hs, filter_some]

end

/-! ## One operation -/

section
variable {db : IndexedDB} {hash : Hash32}

/-- A new block keeps the indexes exact. -/
theorem Exact.addBlockGated (h : Exact db) (hstored : ChainStored db.toVolatileDB)
    (hnew : db.blocks.lookup hash = none) (slot blockNo : Nat)
    (prevHash : Hash32) (header : Option BlockHeader) (allowExtend : Bool) :
    Exact (db.addBlockGated hash slot blockNo prevHash header allowExtend).1 := by
  refine ⟨h.linked.addBlockGated hnew slot blockNo prevHash header allowExtend, ?_, fun n => ?_⟩
  · rw [IndexedDB.addBlockGated]
    rw [addBlockGated_blocks]
    exact h.slots.fileList hnew ⟨slot, blockNo, prevHash⟩
  have hchain : (db.toVolatileDB.addBlockGated hash slot blockNo prevHash header
      allowExtend).1.selectedChain = _ := addBlockGated_selectedChain ..
  have hsame : ∀ x ∈ db.selectedChain,
      (Finmap.insert hash ⟨slot, blockNo, prevHash⟩ db.blocks).lookup x = db.blocks.lookup x := by
    intro x hx
    refine Finmap.lookup_insert_of_ne _ ?_
    rintro rfl
    have := hstored x hx
    rw [hnew] at this
    cases this
  rw [IndexedDB.addBlockGated]
  rw [hchain, addBlockGated_blocks, latest_append, latest_congr hsame, ← h.numbers n]
  split
  · have hnumber : numberOf (Finmap.insert hash ⟨slot, blockNo, prevHash⟩ db.blocks) hash =
        some blockNo := by rw [numberOf, Finmap.lookup_insert]; rfl
    rw [lookup_insert_ite, latest, filter_cons, hnumber]
    by_cases hn : n = blockNo
    · simp [hn]
    · simp [hn, Ne.symm hn]
  · rfl

/-- A hash that is inserted while it is stored stands twice in the index by slot, or under two
slots. -/
theorem not_exact_addBlockGated (h : Exact db) {b : VolatileBlock}
    (hb : db.blocks.lookup hash = some b) (slot blockNo : Nat) (prevHash : Hash32)
    (header : Option BlockHeader) (allowExtend : Bool) :
    ¬Exact (db.addBlockGated hash slot blockNo prevHash header allowExtend).1 := by
  intro hexact
  have hslots := hexact.slots
  rw [addBlockGated] at hslots
  rw [addBlockGated_blocks] at hslots
  have hold := h.slots.mem_iff.2 ⟨b, hb, rfl⟩
  by_cases hs : b.slot = slot
  · have hnodup := hslots.nodup (g := slot) (Finmap.lookup_insert _)
    rw [nodup_append] at hnodup
    exact hnodup.2.2 hash (hs ▸ hold) hash mem_cons_self rfl
  have hmem : hash ∈ ((fileList hash slot db.slotIndex).lookup b.slot).getD [] := by
    rw [fileList, Finmap.lookup_insert_of_ne _ hs]
    exact hold
  obtain ⟨b', hb', hslot⟩ := hslots.mem_iff.1 hmem
  rw [Finmap.lookup_insert] at hb'
  cases hb'
  exact hs hslot.symm

theorem exact_truncateSelectionToDepth_iff (h : Exact db) (hstored : ChainStored db.toVolatileDB)
    (maxDepth : Nat) :
    Exact (db.truncateSelectionToDepth maxDepth) ↔
      SafeCut db (db.selectedChain.take maxDepth) (db.selectedChain.drop maxDepth) := by
  rw [truncateSelectionToDepth]
  split
  · next hlen =>
    refine iff_of_true h fun x hx => ?_
    rw [drop_eq_nil_of_le hlen] at hx
    cases hx
  next hlen =>
  rw [VolatileDB.truncateSelectionToDepth, if_neg hlen]
  refine Iff.trans (exact_iff_numbered ?_) ?_
  · exact h.filed.of_eq rfl rfl rfl rfl
  refine numbered_iff_safeCut h.numbers hstored (take_append_drop _ _).symm rfl rfl
    fun n => ?_
  rw [lookup_eraseAll]
  exact if_congr mem_filterMap rfl rfl

theorem exact_rollbackToPoint_iff (h : Exact db) (hstored : ChainStored db.toVolatileDB)
    (targetSlot : Nat) (targetHash : Option Hash32) :
    Exact (db.rollbackToPoint targetSlot targetHash) ↔
      SafeCut db (db.rollbackChain targetSlot targetHash)
        (db.selectedChain.drop (db.rollbackChain targetSlot targetHash).length) := by
  set kept := db.rollbackChain targetSlot targetHash with hkept
  have hsplit : db.selectedChain = kept ++ db.selectedChain.drop kept.length := by
    obtain ⟨rest, hrest⟩ : kept <+: db.selectedChain := rollbackChain_isPrefix targetSlot targetHash
    rw [← hrest, drop_left]
  refine Iff.trans (exact_iff_numbered ?_) ?_
  · exact h.filed.of_eq rfl rfl rfl rfl
  refine numbered_iff_safeCut h.numbers hstored hsplit rfl rfl fun n => ?_
  rw [rollbackToPoint]
  rw [← hkept, lookup_foldl_forget, h.numbers n]
  set dropped := db.selectedChain.drop kept.length
  rw [hsplit, latest_append]
  split
  · next hex =>
    -- the latest block with this number is dropped
    cases hlast : latest db.blocks dropped (some n) with
    | none =>
      obtain ⟨x, hx, hn⟩ := hex
      exact absurd hn (latest_eq_none_iff.1 hlast x hx)
    | some w =>
      obtain ⟨hmem, hn⟩ := numberOf_of_latest hlast
      simp [filter_some, hmem, hn]
  · next hnone =>
    refine optionFilter_eq_self fun w _ => ?_
    by_cases hw : w ∈ dropped
    · have hne : numberOf db.blocks w ≠ some n := fun hn => hnone ⟨w, hw, hn⟩
      simp [hne]
    · simp [hw]

theorem safeRemoval_congr {gone' : Hash32 → Bool}
    (hsame : ∀ x ∈ db.selectedChain, gone x = gone' x) :
    SafeRemoval db gone ↔ SafeRemoval db gone' := by
  have hmp : ∀ {g g'}, (∀ x ∈ db.selectedChain, g x = g' x) →
      SafeRemoval db g → SafeRemoval db g' := by
    intro g g' hsame hsafe h hh hlast x hx hn
    rw [← hsame h (numberOf_of_latest hlast).1] at hh
    rw [← hsame x hx]
    exact hsafe h hh hlast x hx hn
  exact ⟨hmp hsame, hmp fun x hx => (hsame x hx).symm⟩

/-- A removal keeps the indexes exact if it is safe, and only then. -/
theorem Removed.exact_iff (hr : Removed db gone db')
    (h : Exact db) (hstored : ChainStored db.toVolatileDB) : Exact db' ↔ SafeRemoval db gone :=
  (exact_iff_numbered hr.filed).trans
    (numbered_iff_safeRemoval h.numbers hstored hr.chain (fun x _ => hr.blocks x) hr.numbers)

theorem exact_removeBlock_iff (h : Exact db) (hstored : ChainStored db.toVolatileDB)
    (hash : Hash32) :
    Exact (db.removeBlock hash) ↔ SafeRemoval db fun h => h = hash := by
  rw [removeBlock_eq]
  split
  · rw [(removed_removeBlocksInMemory h.filed [hash]).exact_iff h hstored]
    simp only [mem_singleton]
  next hnot =>
  refine iff_of_true h ?_
  rintro x hx hlast
  obtain rfl : x = hash := of_decide_eq_true hx
  exact absurd (hstored x (numberOf_of_latest hlast).1) hnot

theorem removed_removeBlocksUpToSlot (h : Filed db) (slot : Nat) :
    Removed db (fun h => (db.blocks.lookup h).any fun b => b.slot ≤ slot)
      (db.removeBlocksUpToSlot slot) := by
  set slots := (db.slotIndex.keys.filter fun s => s ≤ slot).sort (· ≤ ·) with hslots
  set gone : Hash32 → Bool := fun h => (db.blocks.lookup h).any fun b => b.slot ≤ slot
  have hmem : ∀ {x b}, db.blocks.lookup x = some b → (b.slot ∈ slots ↔ b.slot ≤ slot) := by
    intro x b hb
    have hkey : b.slot ∈ db.slotIndex.keys := by
      have hfiled := h.slots.mem_iff.2 ⟨b, hb, rfl⟩
      rw [FinMap.mem_keys]
      cases hl : db.slotIndex.lookup b.slot with
      | none => simp [hl] at hfiled
      | some l => rfl
    rw [hslots, Finset.mem_sort, Finset.mem_filter, and_iff_right hkey]
  have hgone : ∀ x, gone x = (db.blocks.lookup x).any fun b => b.slot ∈ slots := by
    intro x
    cases hb : db.blocks.lookup x with
    | none => simp [gone, hb]
    | some b => simp [gone, hb, hmem hb]
  have hremoved : ∀ x, x ∈ slots.flatMap (fun s => (db.slotIndex.lookup s).getD []) ↔ gone x := by
    intro x
    rw [mem_flatMap, hgone]
    simp only [h.slots.mem_iff]
    cases db.blocks.lookup x <;> simp
  have htaken := slotsTaken_foldl h slots
  refine ⟨htaken.filed.of_eq rfl rfl rfl rfl, ?_, fun x hx => ?_, fun n => ?_⟩
  · refine filter_congr fun x _ => ?_
    rw [← hslots, Bool.eq_iff_iff, decide_eq_true_iff, hremoved x]
    simp
  · change (slots.foldl takeSlot db).blocks.lookup x = _
    rw [htaken.blocks]
    refine optionFilter_eq_self fun b hb => ?_
    have hout : gone x = false := hx
    rw [hgone, hb, any_some] at hout
    simpa using hout
  · change (slots.foldl takeSlot db).blockNoIndex.lookup n = _
    rw [htaken.numbers]
    exact optionFilter_congr fun w _ => by rw [hgone]

/-- A rebuilt index of the numbers is exact. -/
theorem exact_of_indexChain (h : Filed db')
    (hindex : db'.blockNoIndex = indexChain db'.blocks db'.selectedChain) : Exact db' := by
  rw [exact_iff_numbered h]
  intro n
  rw [hindex, lookup_indexChain]

theorem exact_rebuildSelectedChain (h : Filed db) (table : Listing.Enumeration Hash32) :
    Exact (db.rebuildSelectedChain table) :=
  exact_of_indexChain (h.of_eq rfl rfl rfl rfl) rfl

theorem Exact.switchChain (h : Exact db) {newTipHash : Hash32} {anchor : Option (Hash32 × Nat)}
    {maxRollback : Nat} {allow : Bool} {plan : SwitchPlan}
    (hswitch : db.switchChain newTipHash anchor maxRollback allow = some (plan, db')) :
    Exact db' := by
  obtain ⟨⟨plan', volatile⟩, hvolatile, heq⟩ := map_eq_some_iff.1 hswitch
  obtain ⟨rfl, rfl⟩ := Prod.mk.inj heq
  obtain ⟨block, -, -, rfl⟩ := switchChain_eq_some hvolatile
  exact exact_of_indexChain (h.filed.of_eq rfl rfl rfl rfl) rfl

theorem Exact.collect (h : Exact db) (hash : Hash32) : Exact (db.collect hash) := by
  rw [IndexedDB.collect]
  split
  · exact h
  next hmem =>
  refine ⟨h.linked.dropBlock hash, ?_, fun n => ?_⟩
  · rw [dropBlock_blocks]
    exact filesList_unslot h.slots hash
  · rw [dropBlock_blocks, dropBlock_selectedChain, h.numbers n]
    refine (latest_congr (fun x hx => ?_) _).symm
    rw [lookup_erase_ite, if_neg]
    rintro rfl
    exact hmem hx

theorem exact_clear (db : IndexedDB) : Exact db.clear where
  linked := ⟨fun _ => rfl, rfl⟩
  slots := ⟨fun hl => (nomatch hl), fun _ => rfl⟩
  numbers _ := rfl

/-- An operation keeps the indexes exact if and only if it is safe. -/
theorem exact_apply_iff (hstored : ChainStored db.toVolatileDB) (h : Exact db) (op : VolatileOp) :
    Exact (db.apply op) ↔ Safe db op := by
  cases op with
  | addBlock hash slot blockNo prevHash header allowExtend =>
    cases hb : db.blocks.lookup hash with
    | none => exact iff_of_true (h.addBlockGated hstored hb _ _ _ _ _) hb
    | some b =>
      refine iff_of_false (not_exact_addBlockGated h hb _ _ _ _ _) fun hnew => ?_
      rw [Safe, hb] at hnew
      cases hnew
  | truncateSelectionToDepth maxDepth => exact exact_truncateSelectionToDepth_iff h hstored maxDepth
  | removeBlock hash => exact exact_removeBlock_iff h hstored hash
  | removeBlocksByHashes hashes =>
    exact (removed_removeBlocksInMemory h.filed hashes).exact_iff h hstored
  | pruneUnreachableFrom table anchor =>
    refine ((removed_removeBlocksInMemory h.filed _).exact_iff h hstored).trans ?_
    refine safeRemoval_congr fun x hx => ?_
    have hkey := FinMap.mem_keys.2 (hstored x hx)
    simp [table.mem_list, hkey]
  | removeBlocksUpToSlot slot =>
    exact (removed_removeBlocksUpToSlot h.filed slot).exact_iff h hstored
  | rollbackToPoint targetSlot targetHash =>
    exact exact_rollbackToPoint_iff h hstored targetSlot targetHash
  | rollbackAndPrune table targetSlot targetHash =>
    refine iff_of_true (exact_rebuildSelectedChain ?_ table) trivial
    exact foldlRecOn (motive := Filed) _ _ (slotsTaken_foldl h.filed _).filed
      fun _ h hash _ => h.removeBlock hash
  | switchChain newTipHash anchor maxRollback allow =>
    refine iff_of_true ?_ trivial
    rw [apply]
    cases hswitch : db.switchChain newTipHash anchor maxRollback allow with
    | none => exact h
    | some r => exact h.switchChain hswitch
  | rebuildSelectedChain table =>
    exact iff_of_true (exact_rebuildSelectedChain h.filed table) trivial
  | gcOrphanedBlocks expired =>
    refine iff_of_true ?_ trivial
    exact foldlRecOn (motive := Exact) expired _ h fun _ h hash _ => h.collect hash
  | clear => exact iff_of_true (exact_clear db) trivial

end

/-! ## Whole runs -/

variable {db : IndexedDB}

theorem chainStored_walkChainBack (db : VolatileDB) (tipHash : Hash32) :
    ∀ x ∈ db.walkChainBack tipHash, (db.blocks.lookup x).isSome := by
  intro x hx
  obtain ⟨root, hlinked, -⟩ := db.linkedFrom_walkChainBack tipHash
  obtain ⟨b, hb⟩ := hlinked.stored x hx
  rw [hb]
  rfl

theorem chainStored_rebuildSelectedChain (db : VolatileDB) (table : Listing.Enumeration Hash32) :
    ChainStored (db.rebuildSelectedChain table) := by
  have hfold : ∀ (leaves : List TipInfo) (best : VolatileDB.BestChain),
      (∀ x ∈ best.chain, (db.blocks.lookup x).isSome) →
      ∀ x ∈ (leaves.foldl db.compareLeaf best).chain, (db.blocks.lookup x).isSome := by
    intro leaves best hbest
    refine foldlRecOn (motive := fun best : VolatileDB.BestChain =>
      ∀ x ∈ best.chain, (db.blocks.lookup x).isSome) leaves _ hbest fun best hbest leaf _ => ?_
    rw [compareLeaf]
    split
    · exact chainStored_walkChainBack db leaf.hash
    · split
      · exact chainStored_walkChainBack db leaf.hash
      · exact hbest
  exact hfold _ _ fun x hx => nomatch hx

/-- What stays of the selected chain stays stored. -/
theorem chainStored_of_subset {db db' : VolatileDB} (h : ChainStored db)
    (hsub : ∀ x ∈ db'.selectedChain,
      x ∈ db.selectedChain ∧ db'.blocks.lookup x = db.blocks.lookup x) :
    ChainStored db' := by
  intro x hx
  obtain ⟨hmem, hsame⟩ := hsub x hx
  rw [hsame]
  exact h x hmem

theorem Removed.chainStored (hr : Removed db gone db')
    (h : ChainStored db.toVolatileDB) : ChainStored db'.toVolatileDB := by
  refine chainStored_of_subset h fun x hx => ?_
  rw [hr.chain, mem_filter] at hx
  exact ⟨hx.1, hr.blocks x (by simpa using hx.2)⟩

theorem chainStored_collect (h : ChainStored db.toVolatileDB) (hash : Hash32) :
    ChainStored (db.collect hash).toVolatileDB := by
  rw [collect]
  split
  · exact h
  next hmem =>
  refine chainStored_of_subset h fun x hx => ?_
  rw [dropBlock_selectedChain] at hx
  refine ⟨hx, ?_⟩
  rw [dropBlock_blocks, lookup_erase_ite, if_neg]
  rintro rfl
  exact hmem hx

/-- Every operation keeps the selected chain stored. -/
theorem chainStored_apply (h : ChainStored db.toVolatileDB) (hfiled : Filed db) (op : VolatileOp) :
    ChainStored (db.apply op).toVolatileDB := by
  cases op with
  | addBlock hash slot blockNo prevHash header allowExtend =>
    intro x hx
    have hchain : (db.toVolatileDB.addBlockGated hash slot blockNo prevHash header
        allowExtend).1.selectedChain = _ := addBlockGated_selectedChain ..
    change (blocks (db.toVolatileDB.addBlockGated hash slot blockNo prevHash header
      allowExtend).1 |>.lookup x).isSome
    rw [addBlockGated_blocks, lookup_insert_ite]
    split
    · rfl
    next hne =>
    have hmem : x ∈ db.selectedChain := by
      change x ∈ (db.toVolatileDB.addBlockGated hash slot blockNo prevHash header
        allowExtend).1.selectedChain at hx
      rw [hchain, mem_append] at hx
      refine hx.resolve_right fun hnew => hne ?_
      split at hnew
      · exact mem_singleton.1 hnew
      · cases hnew
    exact h x hmem
  | truncateSelectionToDepth maxDepth =>
    rw [apply, truncateSelectionToDepth]
    split
    · exact h
    next hlen =>
    rw [VolatileDB.truncateSelectionToDepth, if_neg hlen]
    exact chainStored_of_subset h fun x hx => ⟨mem_of_mem_take hx, rfl⟩
  | removeBlock hash =>
    rw [apply, removeBlock_eq]
    split
    · exact (removed_removeBlocksInMemory hfiled [hash]).chainStored h
    · exact h
  | removeBlocksByHashes hashes =>
    exact (removed_removeBlocksInMemory hfiled hashes).chainStored h
  | pruneUnreachableFrom table anchor =>
    exact (removed_removeBlocksInMemory hfiled _).chainStored h
  | removeBlocksUpToSlot slot => exact (removed_removeBlocksUpToSlot hfiled slot).chainStored h
  | rollbackToPoint targetSlot targetHash =>
    refine chainStored_of_subset h fun x hx => ⟨?_, rfl⟩
    have hpre : db.rollbackChain targetSlot targetHash <+: db.selectedChain :=
      rollbackChain_isPrefix targetSlot targetHash
    exact hpre.subset hx
  | rollbackAndPrune table targetSlot targetHash | rebuildSelectedChain table =>
    exact chainStored_rebuildSelectedChain _ table
  | switchChain newTipHash anchor maxRollback allow =>
    rw [apply]
    cases hswitch : db.switchChain newTipHash anchor maxRollback allow with
    | none => exact h
    | some r =>
    obtain ⟨⟨plan, volatile⟩, hvolatile, rfl⟩ := map_eq_some_iff.1 hswitch
    obtain ⟨block, -, -, rfl⟩ := switchChain_eq_some hvolatile
    intro x hx
    have hnew := chainStored_walkChainBack db.toVolatileDB newTipHash
    have hkept : ∀ y ∈ db.keptChain (db.walkChainBack newTipHash),
        (db.blocks.lookup y).isSome := fun y hy =>
      h y ((keptChain_isPrefix _).subset hy)
    rw [chainThrough] at hx
    cases hlast : (db.keptChain (db.walkChainBack newTipHash)).getLast? with
    | none =>
      rw [hlast] at hx
      exact hnew x hx
    | some intersection =>
    rw [hlast] at hx
    rcases mem_append.1 hx with hx | hx
    · exact hkept x hx
    · exact hnew x (mem_of_mem_drop hx)
  | gcOrphanedBlocks expired =>
    exact foldlRecOn (motive := fun db : IndexedDB => ChainStored db.toVolatileDB) expired _ h
      fun _ h hash _ => chainStored_collect h hash
  | clear => exact fun x hx => absurd hx not_mem_nil

/-- The indexes are exact in every state of a run if and only if every operation of it is safe. -/
theorem indexes_exact_iff (ops : List VolatileOp) :
    (∀ k, Exact (empty.run (ops.take k))) ↔ SafeRun empty ops := by
  have hinv : ∀ db op, ChainStored db.toVolatileDB → Exact db →
      ChainStored (db.apply op).toVolatileDB := fun _ op hs h => chainStored_apply hs h.filed op
  have hstep : ∀ db op, ChainStored db.toVolatileDB → Exact db →
      (Exact (db.apply op) ↔ Safe db op) := fun _ op hs h => exact_apply_iff hs h op
  have hempty : ChainStored empty.toVolatileDB := fun x hx => absurd hx not_mem_nil
  exact Runs.always_iff (fun _ => trivial) (fun _ _ _ => Iff.rfl) hinv hstep hempty
    (exact_clear empty) ops

/-- A block and a Byron boundary block after it, which has the same number. -/
def boundaryRun (op : VolatileOp) : List VolatileOp :=
  [.addBlock 1 21599 7 0 none true, .addBlock 2 21600 7 1 none true, op]

/-- Block 1 is the latest with number 7 on the selected chain, and the index has no entry for 7. -/
def LosesNumber (op : VolatileOp) : Prop :=
  latest (empty.run (boundaryRun op)).blocks (empty.run (boundaryRun op)).selectedChain (some 7) =
      some 1 ∧
    (empty.run (boundaryRun op)).blockNoIndex.lookup 7 = none

instance (op : VolatileOp) : Decidable (LosesNumber op) := inferInstanceAs (Decidable (_ ∧ _))

theorem LosesNumber.not_exact {op : VolatileOp} (h : LosesNumber op) :
    ¬Exact (empty.run (boundaryRun op)) := by
  intro hexact
  have hnumbers := hexact.numbers 7
  rw [h.1, h.2] at hnumbers
  cases hnumbers

/-- The boundary block goes off the selected chain, by a truncation, a rollback or its removal, and
takes the number of the block before it out of the index. -/
theorem boundary_number_lost :
    (LosesNumber (.truncateSelectionToDepth 1) ∧
        ¬Exact (empty.run (boundaryRun (.truncateSelectionToDepth 1)))) ∧
      (LosesNumber (.rollbackToPoint 21599 (some 1)) ∧
        ¬Exact (empty.run (boundaryRun (.rollbackToPoint 21599 (some 1))))) ∧
      (LosesNumber (.removeBlock 2) ∧ ¬Exact (empty.run (boundaryRun (.removeBlock 2)))) := by
  have htruncate : LosesNumber (.truncateSelectionToDepth 1) := by decide +kernel
  have hrollback : LosesNumber (.rollbackToPoint 21599 (some 1)) := by decide +kernel
  have hremove : LosesNumber (.removeBlock 2) := by decide +kernel
  exact ⟨⟨htruncate, htruncate.not_exact⟩, ⟨hrollback, hrollback.not_exact⟩, hremove,
    hremove.not_exact⟩

end IndexedDB

end Dugite
