import Dugite.Storage.ChainStore

/-!
# Paths of parent links

`LinkedFrom blocks anchor chain`: the chain is a path of parent links from the anchor and its blocks
are stored. The operations of the volatile database move along such paths: a walk back collects one,
an insertion extends one, a rollback and what a switch keeps are prefixes, and what a switch applies
continues the part that is kept.

Blocks are those of a `BlockTable`: a hash stands for one block, and a child has a greater slot and
block number than its parent, except that a boundary block shares its number with the block before
it and its slot with the block after it. Slot and number together grow along every path.
-/

namespace Dugite

open List Option Finmap FinMap

/-- The blocks there are. -/
structure BlockTable where
  block : Hash32 → Option VolatileBlock
  genesis : block 0 = none
  child : ∀ {h : Hash32} {b parent : VolatileBlock}, block h = some b →
    block b.prevHash = some parent →
    parent.slot + parent.blockNo < b.slot + b.blockNo ∧ parent.blockNo ≤ b.blockNo

/-! ## Paths of parent links -/

/-- The hashes are a path of parent links from `anchor`, and their blocks are stored. -/
def LinkedFrom (blocks : FinMap Hash32 VolatileBlock) : Hash32 → List Hash32 → Prop
  | _, [] => True
  | anchor, h :: chain =>
    ∃ b, blocks.lookup h = some b ∧ b.prevHash = anchor ∧ LinkedFrom blocks h chain

namespace LinkedFrom

variable {blocks blocks' : FinMap Hash32 VolatileBlock} {anchor h : Hash32}
  {chain chain' : List Hash32}

theorem stored (h : LinkedFrom blocks anchor chain) :
    ∀ x ∈ chain, ∃ b, blocks.lookup x = some b := by
  induction chain generalizing anchor with
  | nil => simp
  | cons y chain ih =>
    obtain ⟨b, hb, -, hrest⟩ := h
    exact forall_mem_cons.2 ⟨⟨b, hb⟩, ih hrest⟩

/-- A path stays one as long as its blocks stay. -/
theorem congr (h : LinkedFrom blocks anchor chain)
    (hsame : ∀ x ∈ chain, blocks'.lookup x = blocks.lookup x) :
    LinkedFrom blocks' anchor chain := by
  induction chain generalizing anchor with
  | nil => trivial
  | cons y chain ih =>
    obtain ⟨b, hb, hprev, hrest⟩ := h
    rw [forall_mem_cons] at hsame
    exact ⟨b, hsame.1.trans hb, hprev, ih hrest hsame.2⟩

theorem append_iff : LinkedFrom blocks anchor (chain ++ chain') ↔
    LinkedFrom blocks anchor chain ∧ LinkedFrom blocks (chain.getLast?.getD anchor) chain' := by
  induction chain generalizing anchor with
  | nil => simp [LinkedFrom]
  | cons y chain ih =>
    have hlast : ((y :: chain).getLast?.getD anchor) = chain.getLast?.getD y := by
      cases chain with
      | nil => rfl
      | cons z chain => simp [getLast?_cons]
    simp only [cons_append, LinkedFrom, ih, hlast]
    constructor
    · rintro ⟨b, hb, hprev, hleft, hright⟩
      exact ⟨⟨b, hb, hprev, hleft⟩, hright⟩
    · rintro ⟨⟨b, hb, hprev, hleft⟩, hright⟩
      exact ⟨b, hb, hprev, hleft, hright⟩

theorem of_isPrefix (h : LinkedFrom blocks anchor chain) (hpre : chain' <+: chain) :
    LinkedFrom blocks anchor chain' := by
  obtain ⟨rest, rfl⟩ := hpre
  exact (append_iff.1 h).1

/-- What comes after a block of a path. -/
theorem drop_idxOf (hchain : LinkedFrom blocks anchor chain) (hmem : h ∈ chain) :
    LinkedFrom blocks h (chain.drop (chain.idxOf h + 1)) := by
  have hidx := idxOf_lt_length_iff.2 hmem
  have hend : (chain.take (chain.idxOf h + 1)).getLast? = some h := by
    rw [getLast?_take, if_neg (by omega), Nat.add_sub_cancel,
      getElem?_eq_getElem hidx, getElem_idxOf]
    rfl
  rw [← take_append_drop (chain.idxOf h + 1) chain, append_iff, hend] at hchain
  exact hchain.2

/-- The start of a nonempty path is determined by its first block. -/
theorem anchor_eq {b : VolatileBlock} (hchain : LinkedFrom blocks anchor (h :: chain))
    (hb : blocks.lookup h = some b) : anchor = b.prevHash := by
  obtain ⟨b', hb', hprev, -⟩ := hchain
  cases hb.symm.trans hb'
  exact hprev.symm

end LinkedFrom

/-- The walk back collects a path; it stops where the parent is not stored or has been met. -/
theorem VolatileDB.linkedFrom_walkBack {blocks : FinMap Hash32 VolatileBlock} (fuel : Nat) :
    ∀ (chain : List Hash32) (current : Hash32), chain.Nodup → LinkedFrom blocks current chain →
      blocks.size ≤ fuel + chain.length →
      ∃ root, LinkedFrom blocks root (walkBack blocks fuel chain current) ∧
        (blocks.lookup root = none ∨ root ∈ walkBack blocks fuel chain current) := by
  induction fuel with
  | zero =>
    intro chain current hnodup hlinked hsize
    refine ⟨current, hlinked, ?_⟩
    -- every stored block is on the chain
    cases hb : blocks.lookup current with
    | none => exact .inl rfl
    | some b =>
    have hsub : chain.toFinset ⊆ blocks.keys := by
      intro x hx
      obtain ⟨b', hb'⟩ := hlinked.stored x (mem_toFinset.1 hx)
      exact mem_keys.2 (mem_of_lookup_eq_some hb')
    have hall : chain.toFinset = blocks.keys := by
      refine Finset.eq_of_subset_of_card_le hsub ?_
      rw [toFinset_card_of_nodup hnodup]
      simpa [size] using hsize
    have hmem : current ∈ chain.toFinset := by
      rw [hall]
      exact mem_keys.2 (mem_of_lookup_eq_some hb)
    exact .inr (mem_toFinset.1 hmem)
  | succ fuel ih =>
    intro chain current hnodup hlinked hsize
    rw [walkBack]
    cases hb : blocks.lookup current with
    | none => exact ⟨current, hlinked, .inl hb⟩
    | some b =>
    dsimp only
    split
    · next hmem => exact ⟨current, hlinked, .inr hmem⟩
    next hmem =>
    have hlonger : LinkedFrom blocks b.prevHash (current :: chain) := ⟨b, hb, rfl, hlinked⟩
    split
    · exact ih _ _ (nodup_cons.2 ⟨hmem, hnodup⟩) hlonger (by simp; omega)
    · next hprev => exact ⟨b.prevHash, hlonger, .inl (by simpa using hprev)⟩

theorem VolatileDB.linkedFrom_walkChainBack (db : VolatileDB) (tipHash : Hash32) :
    ∃ root, LinkedFrom db.blocks root (db.walkChainBack tipHash) ∧
      (db.blocks.lookup root = none ∨ root ∈ db.walkChainBack tipHash) :=
  linkedFrom_walkBack _ _ _ nodup_nil trivial (by simp)

/-! ## Heights -/

namespace BlockTable

variable (T : BlockTable)

/-- Slot and number of a block together: they grow along every parent link. -/
def height (h : Hash32) : Nat := (T.block h).elim 0 fun b => b.slot + b.blockNo

def number (h : Hash32) : Nat := (T.block h).elim 0 (·.blockNo)

end BlockTable

variable {start : Hash32}

section
variable {T : BlockTable} {blocks : FinMap Hash32 VolatileBlock} {chain : List Hash32}
  (hstored : ∀ {h b}, blocks.lookup h = some b → T.block h = some b)
include hstored

/-- What comes after a block of the table is higher. -/
theorem LinkedFrom.above {p : VolatileBlock} (hp : T.block start = some p)
    (h : LinkedFrom blocks start chain) :
    ∀ x ∈ chain, T.height start < T.height x ∧ T.number start ≤ T.number x := by
  induction chain generalizing start p with
  | nil => simp
  | cons y chain ih =>
    obtain ⟨b, hb, rfl, hrest⟩ := h
    have hy := hstored hb
    obtain ⟨hslot, hno⟩ := T.child hy hp
    have hfirst : T.height b.prevHash < T.height y ∧ T.number b.prevHash ≤ T.number y := by
      simp only [BlockTable.height, BlockTable.number, hp, hy, elim_some]
      exact ⟨hslot, hno⟩
    refine forall_mem_cons.2 ⟨hfirst, fun x hx => ?_⟩
    obtain ⟨hup, hno⟩ := ih hy hrest x hx
    omega

/-- A path ascends. -/
theorem LinkedFrom.pairwise (h : LinkedFrom blocks start chain) :
    chain.Pairwise fun x y => T.height x < T.height y ∧ T.number x ≤ T.number y := by
  induction chain generalizing start with
  | nil => exact .nil
  | cons y chain ih =>
    obtain ⟨b, hb, -, hrest⟩ := h
    exact .cons (hrest.above hstored (hstored hb)) (ih hrest)

theorem LinkedFrom.nodup (h : LinkedFrom blocks start chain) : chain.Nodup := by
  refine (h.pairwise hstored).imp ?_
  rintro x y ⟨hlt, -⟩ rfl
  exact lt_irrefl _ hlt

end

/-! ## The operations of the volatile database -/

namespace VolatileDB

variable {db : VolatileDB}

theorem recomputeTip_congr {blocks blocks' : FinMap Hash32 VolatileBlock} {chain : List Hash32}
    (hsame : ∀ x ∈ chain, blocks'.lookup x = blocks.lookup x) :
    recomputeTip blocks' chain = recomputeTip blocks chain := by
  rw [recomputeTip, recomputeTip]
  cases hlast : chain.getLast? with
  | none => rfl
  | some x => rw [bind_some, bind_some, hsame x (mem_of_getLast? hlast)]

/-! ## Insertion -/

section
variable (hash : Hash32)

variable (db) in
/-- An insertion leaves the selected chain, or extends it by the new block. -/
theorem addBlockGated_selection (slot blockNo : Nat) (prevHash : Hash32)
    (header : Option BlockHeader) (allowExtend : Bool) :
    let db' := (db.addBlockGated hash slot blockNo prevHash header allowExtend).1
    db'.selectedChain = db.selectedChain ∧ db'.tip = db.tip ∨
      allowExtend = true ∧ db'.selectedChain = db.selectedChain ++ [hash] ∧
        db'.tip = some ⟨slot, hash, blockNo⟩ ∧
        ∀ tipHash ∈ db.selectedChain.getLast?, prevHash = tipHash := by
  rw [addBlockGated, insertBlockInternal]
  split
  · next hlink =>
    rw [Bool.and_eq_true] at hlink
    refine .inr ⟨hlink.1, rfl, rfl, fun tipHash htip => ?_⟩
    rw [mem_def.1 htip, all_some] at hlink
    exact of_decide_eq_true hlink.2
  · exact .inl ⟨rfl, rfl⟩

/-! ## Removal -/

theorem dropBlock_blocks : (db.dropBlock hash).blocks = db.blocks.erase hash := by
  rw [dropBlock]
  split
  · next hnone => exact (erase_of_lookup_none hnone).symm
  · rfl

@[simp] theorem dropBlock_selectedChain : (db.dropBlock hash).selectedChain = db.selectedChain := by
  rw [dropBlock]
  split <;> rfl

@[simp] theorem dropBlock_tip : (db.dropBlock hash).tip = db.tip := by
  rw [dropBlock]
  split <;> rfl

end

variable (hashes : List Hash32) {anchor : Option (Hash32 × Nat)} {plan : SwitchPlan} {allow : Bool}

theorem removeBlocksInMemory_blocks :
    (db.removeBlocksInMemory hashes).blocks = db.blocks.eraseAll hashes :=
  (foldl_hom VolatileDB.blocks fun _ hash => (dropBlock_blocks hash).symm).symm

theorem removeBlocksInMemory_tip : (db.removeBlocksInMemory hashes).tip = db.tip :=
  foldlRecOn (motive := fun db' : VolatileDB => db'.tip = db.tip) hashes _ rfl
    fun _ h hash _ => (dropBlock_tip hash).trans h

/-- A collection takes only blocks that are not on the selected chain. -/
theorem gcOrphanedBlocks_spec (expired : List Hash32) (db : VolatileDB) :
    (db.gcOrphanedBlocks expired).selectedChain = db.selectedChain ∧
      (db.gcOrphanedBlocks expired).tip = db.tip ∧
      (∀ x ∈ db.selectedChain, (db.gcOrphanedBlocks expired).blocks.lookup x = db.blocks.lookup x) ∧
      ∀ {x b}, (db.gcOrphanedBlocks expired).blocks.lookup x = some b →
        db.blocks.lookup x = some b := by
  induction expired generalizing db with
  | nil => exact ⟨rfl, rfl, fun x _ => rfl, fun h => h⟩
  | cons hash expired ih =>
    rw [gcOrphanedBlocks, foldl_cons, ← gcOrphanedBlocks]
    split
    · exact ih db
    next hmem =>
    obtain ⟨hchain, htip, hkeep, hsub⟩ := ih (db.dropBlock hash)
    rw [dropBlock_selectedChain] at hchain hkeep
    rw [dropBlock_tip] at htip
    refine ⟨hchain, htip, fun x hx => ?_, fun {x b} hx => ?_⟩
    · rw [hkeep x hx, dropBlock_blocks, lookup_erase_ite, if_neg]
      rintro rfl
      exact hmem hx
    · have hx := hsub hx
      rw [dropBlock_blocks, lookup_erase_ite] at hx
      split at hx
      · cases hx
      · exact hx

/-! ## Rollback and switch -/

theorem rollbackChain_isPrefix (targetSlot : Nat) (targetHash : Option Hash32) :
    db.rollbackChain targetSlot targetHash <+: db.selectedChain := by
  rw [rollbackChain]
  split
  · exact take_prefix _ _
  · rw [← reverse_suffix, reverse_reverse]
    exact dropWhile_suffix _

theorem keptChain_isPrefix (newChain : List Hash32) : db.keptChain newChain <+: db.selectedChain := by
  rw [keptChain, ← reverse_suffix, reverse_reverse]
  exact dropWhile_suffix _

/-- A switch that keeps nothing of the selected chain has found the parent of the new chain's first
block: the immutable tip, or genesis. -/
theorem rootPrev_of_switchPlan {newChain : List Hash32}
    (h : db.switchPlan newChain anchor allow = some plan)
    (hnone : (db.keptChain newChain).getLast? = none) :
    ∃ h b, newChain.head? = some h ∧ db.blocks.lookup h = some b ∧
      (allow = true ∧ b.prevHash = 0 ∨ anchor.map (·.1) = some b.prevHash) := by
  simp only [switchPlan, hnone] at h
  split at h
  · next hgenesis =>
    obtain ⟨hallow, -, hroot⟩ := hgenesis
    obtain ⟨x, hx, hroot⟩ := bind_eq_some_iff.1 hroot
    obtain ⟨b, hb, hprev⟩ := map_eq_some_iff.1 hroot
    exact ⟨x, b, hx, hb, .inl ⟨hallow, hprev⟩⟩
  split at h
  · next anchorHash anchorSlot prev hroot =>
    split at h
    · next heq =>
      obtain ⟨x, hx, hroot⟩ := bind_eq_some_iff.1 hroot
      obtain ⟨b, hb, hprev⟩ := map_eq_some_iff.1 hroot
      exact ⟨x, b, hx, hb, .inr (by simp [heq, hprev])⟩
    · cases h
  · cases h

/-- The chain that a switch selects is a path from the anchor. -/
theorem linkedFrom_switchChain
    (hlinked : LinkedFrom db.blocks start db.selectedChain) {newTipHash : Hash32}
    {maxRollback : Nat} {db' : VolatileDB}
    (h : db.switchChain newTipHash anchor maxRollback allow = some (plan, db'))
    (hanchor : anchor.map (·.1) = some start ∨ anchor = none ∧ start = 0)
    (hallow : allow = true → anchor = none) :
    LinkedFrom db.blocks start (db.chainThrough newTipHash) := by
  obtain ⟨root, hroot, -⟩ := db.linkedFrom_walkChainBack newTipHash
  rw [switchChain] at h
  split at h
  · cases h
  split at h
  · cases h
  next hplan =>
  rw [chainThrough]
  cases hlast : (db.keptChain (db.walkChainBack newTipHash)).getLast? with
  | some intersection =>
    refine LinkedFrom.append_iff.2 ⟨hlinked.of_isPrefix (keptChain_isPrefix _), ?_⟩
    rw [hlast, getD_some]
    exact hroot.drop_idxOf (keptChain_subset hlast)
  | none =>
  obtain ⟨x, b, hhead, hb, hprev⟩ := rootPrev_of_switchPlan hplan hlast
  cases hchain : db.walkChainBack newTipHash with
  | nil => trivial
  | cons y rest =>
  rw [hchain] at hhead hroot
  cases hhead
  obtain rfl : root = b.prevHash := hroot.anchor_eq hb
  have hstart : b.prevHash = start := by
    rcases hprev with ⟨hgenesis, hzero⟩ | hsome
    · rcases hanchor with hanchor | ⟨-, rfl⟩
      · rw [hallow hgenesis] at hanchor
        cases hanchor
      · exact hzero
    rcases hanchor with hanchor | ⟨hnone, -⟩
    · exact Option.some.inj (hsome.symm.trans hanchor)
    · rw [hnone] at hsome
      cases hsome
  exact hstart ▸ hroot

end VolatileDB

end Dugite
