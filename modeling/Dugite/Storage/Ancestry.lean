import Dugite.Storage.ParentLinks

/-!
# Ancestry without cycles

`Acyclic blocks`: no stored block is its own ancestor. A path of parent links then has no
repetition, and the ancestry of a block is one path: every path that ends at the block is the end of
what `walk_chain_back` collects (`LinkedFrom.suffix_of_root`), which reaches back to a parent that
is not stored.
-/

namespace Dugite

open List

section
variable (blocks : FinMap Hash32 VolatileBlock)

/-- `p` is the parent of the stored block `h`. -/
def IsParent (p h : Hash32) : Prop := ∃ b, blocks.lookup h = some b ∧ b.prevHash = p

/-- `a` is an ancestor of `h`. -/
abbrev IsAncestor : Hash32 → Hash32 → Prop := Relation.TransGen (IsParent blocks)

/-- No block is its own ancestor. -/
def Acyclic : Prop := ∀ h, ¬IsAncestor blocks h h

end

variable (height : Hash32 → Nat)

/-- Blocks that are above their parents form no cycle. -/
theorem acyclic_of_lt {blocks : FinMap Hash32 VolatileBlock}
    (hlt : ∀ h b, blocks.lookup h = some b → height b.prevHash < height h) : Acyclic blocks := by
  have hup : ∀ {p h}, IsAncestor blocks p h → height p < height h := by
    intro p h hanc
    induction hanc with
    | single hparent =>
      obtain ⟨b, hb, rfl⟩ := hparent
      exact hlt _ b hb
    | tail _ hparent ih =>
      obtain ⟨b, hb, rfl⟩ := hparent
      exact ih.trans (hlt _ b hb)
  exact fun h hanc => lt_irrefl _ (hup hanc)

theorem acyclic_insertAll {entries : List (Hash32 × VolatileBlock)}
    (hlt : ∀ e ∈ entries, height e.2.prevHash < height e.1) :
    Acyclic (FinMap.insertAll entries ∅) := by
  refine acyclic_of_lt height fun h b hb => ?_
  rcases FinMap.mem_of_lookup_insertAll hb with hmem | hmem
  · exact hlt _ hmem
  · cases hmem

namespace LinkedFrom

variable {blocks : FinMap Hash32 VolatileBlock} {start root : Hash32} {chain whole : List Hash32}

section
variable (h : LinkedFrom blocks start chain)
include h

/-- The start of a path is an ancestor of all its blocks. -/
theorem isAncestor : ∀ x ∈ chain, IsAncestor blocks start x := by
  induction chain generalizing start with
  | nil => simp
  | cons y chain ih =>
    obtain ⟨b, hb, rfl, hrest⟩ := h
    have hfirst : IsAncestor blocks b.prevHash y := .single ⟨b, hb, rfl⟩
    exact forall_mem_cons.2 ⟨hfirst, fun x hx => hfirst.trans (ih hrest x hx)⟩

theorem pairwise_isAncestor : chain.Pairwise (IsAncestor blocks) := by
  induction chain generalizing start with
  | nil => exact .nil
  | cons y chain ih =>
    obtain ⟨b, hb, -, hrest⟩ := h
    exact .cons hrest.isAncestor (ih hrest)

theorem nodup_of_acyclic (hacyclic : Acyclic blocks) : chain.Nodup := by
  refine h.pairwise_isAncestor.imp ?_
  rintro x y hanc rfl
  exact hacyclic x hanc

end

theorem concat_iff {x : Hash32} : LinkedFrom blocks start (chain ++ [x]) ↔
    LinkedFrom blocks start chain ∧ IsParent blocks (chain.getLast?.getD start) x := by
  rw [append_iff]
  simp only [LinkedFrom, and_true]
  rfl

/-- Every path to a block is the end of the one that reaches back furthest. -/
theorem suffix_of_root (hwhole : LinkedFrom blocks root whole) (hroot : blocks.lookup root = none)
    (hchain : LinkedFrom blocks start chain) (hlast : chain.getLast? = whole.getLast?) :
    chain <:+ whole := by
  induction chain using List.reverseRecOn generalizing whole with
  | nil => exact nil_suffix
  | append_singleton chain x ih =>
    obtain ⟨older, rfl⟩ : ∃ older, whole = older ++ [x] := by
      rw [getLast?_concat] at hlast
      exact (getLast?_eq_some_iff.1 hlast.symm)
    obtain ⟨hchain, b, hb, hprev⟩ := concat_iff.1 hchain
    obtain ⟨hwhole, b', hb', hprev'⟩ := concat_iff.1 hwhole
    cases hb.symm.trans hb'
    suffices hsuffix : chain <:+ older by
      obtain ⟨front, rfl⟩ := hsuffix
      exact ⟨front, by simp⟩
    cases hy : chain.getLast? with
    | none =>
      rw [getLast?_eq_none_iff.1 hy]
      exact nil_suffix
    | some y =>
    -- the parent is stored, so the longer path has it too
    refine ih hwhole hchain ?_
    rw [hy, Option.getD_some] at hprev
    obtain ⟨c, hc⟩ := hchain.stored y (mem_of_getLast? hy)
    cases hz : older.getLast? with
    | none =>
      rw [hz, Option.getD_none, hprev] at hprev'
      rw [← hprev', hc] at hroot
      cases hroot
    | some z =>
      rw [hz, Option.getD_some, hprev] at hprev'
      rw [hy, hprev']

/-- What comes before such a path: its start, or nothing when the start is the root. -/
theorem getLast_of_append (hwhole : LinkedFrom blocks root (whole ++ chain))
    (hchain : LinkedFrom blocks start chain) (hne : chain ≠ []) :
    whole.getLast?.getD root = start := by
  obtain ⟨x, rest, rfl⟩ := exists_cons_of_ne_nil hne
  obtain ⟨b, hb, rfl, -⟩ := hchain
  exact (append_iff.1 hwhole).2.anchor_eq hb

end LinkedFrom

namespace VolatileDB

variable {db : VolatileDB} {tipHash : Hash32}

/-- The walk back reaches a parent that is not stored. -/
theorem exists_root (hacyclic : Acyclic db.blocks) (tipHash : Hash32) :
    ∃ root, LinkedFrom db.blocks root (db.walkChainBack tipHash) ∧
      db.blocks.lookup root = none := by
  obtain ⟨root, hlinked, hroot⟩ := db.linkedFrom_walkChainBack tipHash
  refine ⟨root, hlinked, hroot.resolve_right fun hmem => ?_⟩
  exact hacyclic root (hlinked.isAncestor root hmem)

theorem walkChainBack_ne_nil {block : VolatileBlock} (hb : db.blocks.lookup tipHash = some block) :
    db.walkChainBack tipHash ≠ [] := by
  have hsize : db.blocks.size ≠ 0 := by
    rw [FinMap.size, Finset.card_ne_zero]
    exact ⟨tipHash, Finmap.mem_keys.2 (Finmap.mem_of_lookup_eq_some hb)⟩
  obtain ⟨fuel, hfuel⟩ := Nat.exists_eq_succ_of_ne_zero hsize
  rw [walkChainBack, hfuel, walkBack, hb]
  simp only [not_mem_nil, if_false]
  split
  · intro hnil
    have hsuffix := suffix_walkBack db.blocks fuel [tipHash] block.prevHash
    rw [hnil] at hsuffix
    simp at hsuffix
  · simp

end VolatileDB

end Dugite
