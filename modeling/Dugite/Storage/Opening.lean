import Dugite.Storage.ParentLinks

/-!
# Opening the volatile database

A replay of the log gives back the blocks with their successor map (`Replayed`) and selects the
ancestry of the best leaf (`Derived`). Pruning from the immutable tip keeps the blocks that are
reachable from it; what it leaves of the selected chain is a path from the tip
(`Replayed.linkedFrom_filter`).
-/

namespace Dugite

open List FinMap VolatileDB

namespace VolatileDB

variable {T : BlockTable} {db : VolatileDB} {anchor start x : Hash32} {chain : List Hash32}

/-- What a replay of blocks of the table leaves. -/
structure Replayed (T : BlockTable) (db : VolatileDB) : Prop where
  stored : ∀ {h b}, db.blocks.lookup h = some b → T.block h = some b
  children : ∀ {p h}, h ∈ db.children p ↔ ∃ b, db.blocks.lookup h = some b ∧ b.prevHash = p

theorem replayEntry_blocks (db : VolatileDB) (entry : Hash32 × VolatileBlock) :
    (db.replayEntry entry).blocks = Finmap.insert entry.1 entry.2 db.blocks := by
  rw [replayEntry, insertBlockInternal]
  split <;> rfl

theorem replayEntry_children (db : VolatileDB) (entry : Hash32 × VolatileBlock) (p : Hash32) :
    (db.replayEntry entry).children p =
      if p = entry.2.prevHash then insert entry.1 (db.children p) else db.children p := by
  have hsucc : (db.replayEntry entry).successors = Finmap.insert entry.2.prevHash
      (insert entry.1 (db.children entry.2.prevHash)) db.successors := by
    rw [replayEntry, insertBlockInternal]
    split <;> rfl
  rw [children, hsucc, lookup_insert_ite]
  split
  · next heq => rw [heq, Option.getD_some]
  · rfl

theorem Replayed.replayEntry (h : Replayed T db) {entry : Hash32 × VolatileBlock}
    (hentry : T.block entry.1 = some entry.2) : Replayed T (db.replayEntry entry) where
  stored {x b} hb := by
    rw [replayEntry_blocks, lookup_insert_ite] at hb
    split at hb
    · next heq =>
      cases hb
      exact heq ▸ hentry
    · exact h.stored hb
  children {p x} := by
    rw [replayEntry_blocks, replayEntry_children, lookup_insert_ite]
    by_cases hx : x = entry.1
    · -- the entry is a child of its parent only
      have hold : x ∈ db.children p → entry.2.prevHash = p := by
        intro hmem
        obtain ⟨b, hb, hprev⟩ := h.children.1 hmem
        have hsame := (h.stored hb).symm.trans (hx ▸ hentry)
        cases hsame
        exact hprev
      split
      · next hp => simp [hx, hp]
      next hp =>
      refine iff_of_false (fun hmem => hp (hold hmem).symm) ?_
      rintro ⟨b, hb, hprev⟩
      cases hb
      exact hp hprev.symm
    · split
      · rw [Finset.mem_insert, or_iff_right hx]
        exact h.children
      · exact h.children

/-- The selected chain is a path of stored blocks that goes back as far as there are parents, and
the tip is its end. -/
structure Derived (db : VolatileDB) : Prop where
  linked : ∃ root, LinkedFrom db.blocks root db.selectedChain ∧
    (db.blocks.lookup root = none ∨ root ∈ db.selectedChain)
  tip : db.tip = recomputeTip db.blocks db.selectedChain

/-- A rebuild selects the ancestry of a leaf, or nothing. -/
theorem derived_rebuildSelectedChain (db : VolatileDB) (table : Listing.Enumeration Hash32)
    (hempty : db.blocks.lookup 0 = none) : Derived (db.rebuildSelectedChain table) := by
  have hbest : ∀ (leaves : List TipInfo) (best : BestChain),
      (best.chain = [] ∨ ∃ x, best.chain = db.walkChainBack x) →
      (leaves.foldl db.compareLeaf best).chain = [] ∨
        ∃ x, (leaves.foldl db.compareLeaf best).chain = db.walkChainBack x := by
    intro leaves
    induction leaves with
    | nil => exact fun best h => h
    | cons leaf leaves ih =>
      intro best h
      refine ih _ ?_
      rw [compareLeaf]
      split
      · exact .inr ⟨leaf.hash, rfl⟩
      · split
        · exact .inr ⟨leaf.hash, rfl⟩
        · exact h
  have hchain := hbest (db.getLeafTips table) ⟨[], 0, none⟩ (.inl rfl)
  refine ⟨?_, rfl⟩
  rw [rebuildSelectedChain]
  rcases hchain with h | ⟨x, h⟩ <;> rw [h]
  · exact ⟨0, trivial, .inl hempty⟩
  · exact db.linkedFrom_walkChainBack x

theorem openFrom_spec (table : Listing.Enumeration Hash32)
    {entries : List (Hash32 × VolatileBlock)} (hentries : ∀ e ∈ entries, T.block e.1 = some e.2) :
    Replayed T (openFrom table entries) ∧ Derived (openFrom table entries) := by
  have hfresh : Replayed T empty :=
    ⟨fun h => (nomatch h), iff_of_false (Finset.notMem_empty _) (fun ⟨_, h, _⟩ => (nomatch h))⟩
  have hreplayed := foldlRecOn entries _ hfresh fun _ h e he => h.replayEntry (hentries e he)
  have hzero : (entries.foldl replayEntry empty).blocks.lookup 0 = none := by
    cases hb : (entries.foldl replayEntry empty).blocks.lookup 0 with
    | none => rfl
    | some b =>
      have := hreplayed.stored hb
      rw [T.genesis] at this
      cases this
  rw [openFrom]
  split
  · next hsize =>
    refine ⟨hreplayed, ?_⟩
    -- nothing was replayed
    rcases eq_nil_or_concat entries with rfl | ⟨entries, e, rfl⟩
    · exact ⟨⟨0, trivial, .inl rfl⟩, rfl⟩
    · rw [concat_eq_append, foldl_append, foldl_cons, foldl_nil,
        size, Finset.card_eq_zero, replayEntry_blocks, keys_insert] at hsize
      simp at hsize
  · exact ⟨{ hreplayed with }, derived_rebuildSelectedChain _ table hzero⟩

/-! ## Pruning -/

theorem mem_reachable_iff : x ∈ db.reachable anchor ↔
    x ∈ db.children anchor ∨ ∃ c ∈ db.reachable anchor, x ∈ db.children c := by
  have hwithin : ∀ c, db.children c ⊆ db.successors.keys.biUnion db.children := by
    intro c y hy
    refine Finset.mem_biUnion.2 ⟨c, ?_, hy⟩
    by_contra hkey
    rw [Finmap.mem_keys, ← Finmap.lookup_eq_none] at hkey
    rw [children, hkey] at hy
    cases hy
  rw [reachable, ← Reach.mem_spread_succ, Reach.spread_fixed hwithin le_rfl]

/-- A stored block is reachable from the anchor when its parent is the anchor or reachable. -/
theorem Replayed.mem_reachable (h : Replayed T db) :
    x ∈ db.reachable anchor ↔ ∃ b, db.blocks.lookup x = some b ∧
      (b.prevHash = anchor ∨ b.prevHash ∈ db.reachable anchor) := by
  rw [mem_reachable_iff]
  constructor
  · rintro (hx | ⟨c, hc, hx⟩)
    · obtain ⟨b, hb, hprev⟩ := h.children.1 hx
      exact ⟨b, hb, .inl hprev⟩
    · obtain ⟨b, hb, hprev⟩ := h.children.1 hx
      exact ⟨b, hb, .inr (hprev ▸ hc)⟩
  · rintro ⟨b, hb, hprev | hprev⟩
    · exact .inl (h.children.2 ⟨b, hb, hprev⟩)
    · exact .inr ⟨b.prevHash, hprev, h.children.2 ⟨b, hb, rfl⟩⟩

/-- What follows a reachable block is reachable. -/
theorem Replayed.all_reachable (h : Replayed T db) (hlinked : LinkedFrom db.blocks start chain)
    (hstart : start = anchor ∨ start ∈ db.reachable anchor) :
    ∀ x ∈ chain, x ∈ db.reachable anchor := by
  induction chain generalizing start with
  | nil => simp
  | cons y chain ih =>
    obtain ⟨b, hb, rfl, hrest⟩ := hlinked
    have hy := h.mem_reachable.2 ⟨b, hb, hstart⟩
    exact forall_mem_cons.2 ⟨hy, ih hrest (.inr hy)⟩

/-- The reachable part of a path that does not start among them is a path from the anchor. -/
theorem Replayed.linkedFrom_filter (h : Replayed T db)
    (hlinked : LinkedFrom db.blocks start chain) (hstart : start ∉ db.reachable anchor) :
    LinkedFrom db.blocks anchor (chain.filter (· ∈ db.reachable anchor)) := by
  induction chain generalizing start with
  | nil => trivial
  | cons y chain ih =>
    obtain ⟨b, hb, rfl, hrest⟩ := hlinked
    by_cases hy : y ∈ db.reachable anchor
    · -- from the first reachable block on everything is reachable
      obtain ⟨b', hb', hprev⟩ := h.mem_reachable.1 hy
      cases hb.symm.trans hb'
      have hall := h.all_reachable hrest (.inr hy)
      rw [filter_cons_of_pos (by simpa using hy), filter_eq_self.2 (by simpa using hall)]
      exact ⟨b, hb, hprev.resolve_right hstart, hrest⟩
    · rw [filter_cons_of_neg (by simpa using hy)]
      exact ih hrest hy

end VolatileDB

end Dugite
