import Dugite.Storage.Opening

/-!
# The selected chain is anchored

`ChainStore.Rooted`: the selected chain is a path of parent links from the anchor (the immutable
tip, or genesis), its blocks are stored, and the recorded tip is its end. The operations that move
the chain without looking at the anchor, or the chain without the tip, do not keep this: a block
inserted into an empty chain need not be a child of the anchor, removing a block of the chain leaves
a gap and the old tip, a flush of the whole chain leaves the old tip, and at an opening the pruning
may take the best chain away. `ChainOp.Safe` says of an operation that this does not happen, and
`rooted_run` that a run of safe operations is rooted in every state.
-/

namespace Dugite

open FinMap List VolatileDB LinkedFrom Finmap BlockTable

/-! ## The invariant -/

namespace ChainStore

/-- The selected chain is anchored, stored, and ends in the recorded tip. -/
structure Rooted (s : ChainStore) : Prop where
  linked : LinkedFrom s.volatile.blocks s.anchor s.volatile.selectedChain
  tip : s.volatile.tip = VolatileDB.recomputeTip s.volatile.blocks s.volatile.selectedChain

/-- An immutable block stands for its block of the table. -/
def Known (T : BlockTable) (t : TipInfo) : Prop :=
  ∃ prev, T.block t.hash = some ⟨t.slot, t.blockNo, prev⟩

/-- What lies on disk comes from the table, and the immutable chain ascends. -/
structure Consistent (T : BlockTable) (wal : FinMap Hash32 VolatileBlock)
    (immutable : List TipInfo) : Prop where
  wal : ∀ {h b}, wal.lookup h = some b → T.block h = some b
  known : ∀ t ∈ immutable, Known T t
  ascends : immutable.Pairwise fun t u =>
    t.slot + t.blockNo < u.slot + u.blockNo ∧ t.blockNo ≤ u.blockNo

/-- What every run of safe operations keeps. -/
structure Sound (T : BlockTable) (s : ChainStore) : Prop extends Rooted s where
  disk : Consistent T s.wal s.immutable
  stored : ∀ {h b}, s.volatile.blocks.lookup h = some b → T.block h = some b
  immutableTip : s.immutableTip = s.immutable.getLast?
  immutableBlocks : s.immutableBlocks = (s.immutable.map (·.hash)).toFinset
  flushed : s.lastFlushedBlockNo ≤ (s.immutable.getLast?.map (·.blockNo)).getD 0

variable {T : BlockTable} {s : ChainStore}
  {wal : FinMap Hash32 VolatileBlock} {volatile : VolatileDB} {immutable : List TipInfo}
  {chain : List Hash32} {t : TipInfo}

theorem sound_onDisk (k : Nat)
    (h : Consistent T wal immutable) : Sound T (onDisk k wal immutable) where
  linked := trivial
  tip := rfl
  disk := h
  stored := fun hb => by cases hb
  immutableTip := rfl
  immutableBlocks := rfl
  flushed := le_rfl

/-- A change of the volatile database that keeps it rooted and adds no block. -/
theorem Sound.of_volatile (hs : Sound T s)
    (hsub : ∀ {h b}, volatile.blocks.lookup h = some b → T.block h = some b)
    (hlinked : LinkedFrom volatile.blocks s.anchor volatile.selectedChain)
    (htip : volatile.tip = recomputeTip volatile.blocks volatile.selectedChain) :
    Sound T { s with volatile } where
  linked := hlinked
  tip := htip
  disk := hs.disk
  stored := hsub
  immutableTip := hs.immutableTip
  immutableBlocks := hs.immutableBlocks
  flushed := hs.flushed

/-- A log of blocks of the table is as good as another. -/
theorem Sound.of_wal (hs : Sound T s)
    (hwal : ∀ {h b}, wal.lookup h = some b → T.block h = some b) : Sound T { s with wal } where
  linked := hs.linked
  tip := hs.tip
  disk := { hs.disk with wal := hwal }
  stored := hs.stored
  immutableTip := hs.immutableTip
  immutableBlocks := hs.immutableBlocks
  flushed := hs.flushed

/-! ## Flushes -/

/-- The record that a flush makes of a stored block. -/
def infoOf (blocks : FinMap Hash32 VolatileBlock) (t : TipInfo) : Prop :=
  ∃ prev, blocks.lookup t.hash = some ⟨t.slot, t.blockNo, prev⟩

/-- Where no block is below the range, a flush looks at the first blocks of the chain. -/
theorem flushRange_spec {blocks : FinMap Hash32 VolatileBlock} {start upTo : Nat}
    (hstored : ∀ x ∈ chain, ∃ b, blocks.lookup x = some b ∧ start ≤ b.blockNo + 1) :
    (flushRange blocks start upTo chain).map (·.hash) <+: chain ∧
      ∀ t ∈ flushRange blocks start upTo chain, infoOf blocks t ∧ t.blockNo ≤ upTo := by
  induction chain with
  | nil => simp [flushRange]
  | cons x chain ih =>
    rw [forall_mem_cons] at hstored
    obtain ⟨⟨b, hb, hstart⟩, hrest⟩ := hstored
    obtain ⟨hpre, hinfo⟩ := ih hrest
    simp only [flushRange, hb]
    rw [if_neg (by omega)]
    split
    · simp
    next hle =>
    refine ⟨by simpa using hpre, forall_mem_cons.2 ⟨⟨⟨b.prevHash, hb⟩, ?_⟩, hinfo⟩⟩
    exact Nat.le_of_not_lt hle

/-- The immutable tip stands for its block, and no immutable block is higher. -/
theorem Sound.anchor_known (hs : Sound T s) {tip : TipInfo}
    (htip : s.immutable.getLast? = some tip) :
    Known T tip ∧ s.anchor = tip.hash ∧ ∀ t ∈ s.immutable,
      t.slot + t.blockNo ≤ tip.slot + tip.blockNo ∧ t.blockNo ≤ tip.blockNo := by
  refine ⟨hs.disk.known tip (mem_of_getLast? htip), ?_, ?_⟩
  · rw [anchor, hs.immutableTip, htip]
    rfl
  · obtain ⟨older, hold⟩ := getLast?_eq_some_iff.1 htip
    intro t ht
    rw [hold] at ht
    rcases mem_append.1 ht with ht | ht
    · have hpair := hs.disk.ascends
      rw [hold, pairwise_append] at hpair
      have := hpair.2.2 t ht tip mem_cons_self
      omega
    · cases mem_singleton.1 ht
      exact ⟨le_rfl, le_rfl⟩

theorem height_of_known (h : Known T t) :
    T.height t.hash = t.slot + t.blockNo ∧ T.number t.hash = t.blockNo := by
  obtain ⟨prev, hblock⟩ := h
  simp [height, number, hblock]

section
variable (hs : Sound T s) {x : Hash32}
include hs

/-- The blocks of the selected chain are above every immutable block. -/
theorem Sound.above_immutable (hx : x ∈ s.volatile.selectedChain) (ht : t ∈ s.immutable) :
    t.slot + t.blockNo < T.height x ∧ t.blockNo ≤ T.number x := by
  obtain ⟨tip, htip⟩ := Option.ne_none_iff_exists'.1
    (mt getLast?_eq_none_iff.1 (ne_nil_of_mem ht))
  obtain ⟨hknown, hanchor, hmax⟩ := hs.anchor_known htip
  obtain ⟨hheight, hnumber⟩ := height_of_known hknown
  obtain ⟨prev, hblock⟩ := hknown
  have habove := hs.linked.above hs.stored (hanchor ▸ hblock) x hx
  rw [hanchor] at habove
  have := hmax t ht
  omega

/-- No block of the selected chain is below the blocks flushed. -/
theorem Sound.flushed_le (hx : x ∈ s.volatile.selectedChain) :
    ∃ b, s.volatile.blocks.lookup x = some b ∧ s.lastFlushedBlockNo + 1 ≤ b.blockNo + 1 := by
  obtain ⟨b, hb⟩ := hs.linked.stored x hx
  refine ⟨b, hb, ?_⟩
  have hflushed := hs.flushed
  cases htip : s.immutable.getLast? with
  | none =>
    rw [htip] at hflushed
    simp only [Option.map_none, Option.getD_none] at hflushed
    omega
  | some tip =>
  rw [htip] at hflushed
  simp only [Option.map_some, Option.getD_some] at hflushed
  have habove := (hs.above_immutable hx (mem_of_getLast? htip)).2
  simp only [number, hs.stored hb, Option.elim_some] at habove
  omega

/-- A flush moves the first blocks of the selected chain. -/
theorem Sound.toFinalize_spec (upTo : Nat) (limit : Option Nat) :
    (s.toFinalize upTo limit).map (·.hash) <+: s.volatile.selectedChain ∧
      ∀ t ∈ s.toFinalize upTo limit, infoOf s.volatile.blocks t ∧ t.blockNo ≤ upTo := by
  set range := flushRange s.volatile.blocks (s.lastFlushedBlockNo + 1) upTo s.volatile.selectedChain
    with hrange
  obtain ⟨hpre, hinfo⟩ : range.map (·.hash) <+: s.volatile.selectedChain ∧
      ∀ t ∈ range, infoOf s.volatile.blocks t ∧ t.blockNo ≤ upTo :=
    flushRange_spec fun x hx => hs.flushed_le hx
  -- a limit cuts the range, and none of it is immutable already
  obtain ⟨n, hn⟩ : ∃ n, (limit.elim range fun n => range.take (max n 1)) = range.take n := by
    cases limit with
    | none => exact ⟨range.length, (take_length).symm⟩
    | some n => exact ⟨max n 1, rfl⟩
  have hall : ∀ t ∈ range.take n, t.hash ∉ s.immutableBlocks := by
    intro t ht
    rw [hs.immutableBlocks, mem_toFinset, mem_map]
    rintro ⟨t', ht', heq⟩
    have habove := hs.above_immutable (hpre.subset (mem_map_of_mem (mem_of_mem_take ht))) ht'
    rw [← heq, (height_of_known (hs.disk.known t' ht')).1] at habove
    omega
  have heq : s.toFinalize upTo limit = range.take n := by
    rw [toFinalize, ← hrange, hn, filter_eq_self.2]
    simpa using hall
  rw [heq]
  refine ⟨List.IsPrefix.trans ?_ hpre, fun t ht => hinfo t (mem_of_mem_take ht)⟩
  rw [map_take]
  exact take_prefix _ _

/-- The immutable chain with the blocks of a flush. -/
theorem Sound.consistent_append {moved : List TipInfo}
    (hpre : moved.map (·.hash) <+: s.volatile.selectedChain)
    (hinfo : ∀ t ∈ moved, infoOf s.volatile.blocks t) :
    Consistent T s.wal (s.immutable ++ moved) := by
  have hknown : ∀ t ∈ moved, Known T t := by
    intro t ht
    obtain ⟨prev, hb⟩ := hinfo t ht
    exact ⟨prev, hs.stored hb⟩
  refine ⟨hs.disk.wal, forall_mem_append.2 ⟨hs.disk.known, hknown⟩, ?_⟩
  refine pairwise_append.2 ⟨hs.disk.ascends, ?_, fun t ht u hu => ?_⟩
  · have hpair := (hs.linked.pairwise hs.stored).sublist hpre.sublist
    rw [pairwise_map] at hpair
    refine hpair.imp_of_mem fun {t u} ht hu h => ?_
    obtain ⟨hheight, hnumber⟩ := height_of_known (hknown t ht)
    obtain ⟨hheight', hnumber'⟩ := height_of_known (hknown u hu)
    omega
  · have habove := hs.above_immutable (hpre.subset (mem_map_of_mem hu)) ht
    obtain ⟨hheight, hnumber⟩ := height_of_known (hknown u hu)
    omega

/-- A flush that retains a block keeps the chain anchored. -/
theorem Sound.flushRetaining {retain : Nat} (hretain : 0 < retain)
    (limit : Option Nat) : Sound T (s.flushRetaining retain limit) := by
  rw [ChainStore.flushRetaining]
  cases htip : s.volatile.tip with
  | none => exact hs
  | some tip =>
  dsimp only
  split
  · exact hs
  next hdeep =>
  obtain ⟨hpre, hinfo⟩ := hs.toFinalize_spec (tip.blockNo - retain) limit
  set moved := s.toFinalize (tip.blockNo - retain) limit
  cases hlast : moved.getLast? with
  | none => exact hs
  | some last =>
  obtain ⟨rest, hrest⟩ := hpre
  have hlastHash : (moved.map (·.hash)).getLast? = some last.hash := by
    rw [getLast?_map, hlast]
    rfl
  -- the tip is above what is flushed
  have hne : rest ≠ [] := by
    rintro rfl
    rw [append_nil] at hrest
    have hend := hs.tip
    rw [htip, recomputeTip, ← hrest, hlastHash, Option.bind_some] at hend
    obtain ⟨hinfo, hle⟩ := hinfo last (mem_of_getLast? hlast)
    obtain ⟨prev, hb⟩ := hinfo
    rw [hb] at hend
    cases hend
    dsimp only at hle hdeep
    omega
  have hnodup := hs.linked.nodup hs.stored
  rw [← hrest, nodup_append'] at hnodup
  have hfilter : s.volatile.selectedChain.filter (fun h => h ∉ moved.map (·.hash)) = rest := by
    rw [← hrest, filter_append, filter_eq_nil_iff.2 (by simp), nil_append, filter_eq_self]
    intro h hh
    simpa using fun t ht heq => hnodup.2.2 (mem_map.2 ⟨t, ht, heq⟩) hh
  have hsame : ∀ x ∈ rest, (s.volatile.blocks.eraseAll (moved.map (·.hash))).lookup x =
      s.volatile.blocks.lookup x := by
    intro x hx
    rw [lookup_eraseAll, if_neg fun hmem => hnodup.2.2 hmem hx]
  have hlinked := hs.linked
  rw [← hrest, append_iff, hlastHash, Option.getD_some] at hlinked
  have hblocks : (s.volatile.removeBlocksInMemory (moved.map (·.hash))).blocks =
      s.volatile.blocks.eraseAll (moved.map (·.hash)) := removeBlocksInMemory_blocks _
  have hchain : (s.volatile.removeBlocksInMemory (moved.map (·.hash))).selectedChain = rest :=
    hfilter
  refine ⟨⟨?_, ?_⟩, hs.consistent_append ⟨rest, hrest⟩ fun t ht => (hinfo t ht).1, ?_, ?_, ?_, ?_⟩
  · rw [hblocks, hchain]
    exact hlinked.2.congr hsame
  · rw [removeBlocksInMemory_tip, hs.tip, hchain, hblocks, recomputeTip_congr hsame,
      recomputeTip, recomputeTip, ← hrest, getLast?_append_of_ne_nil _ hne]
  · intro h b hb
    rw [hblocks, lookup_eraseAll] at hb
    split at hb
    · cases hb
    · exact hs.stored hb
  · rw [getLast?_append, hlast]
    rfl
  · rw [hs.immutableBlocks, map_append, toFinset_append]
  · rw [getLast?_append, hlast]
    exact le_rfl

end

/-! ## Opening -/

theorem Consistent.take
    (h : Consistent T wal immutable) (kept : Nat) : Consistent T wal (immutable.take kept) where
  wal := h.wal
  known t ht := h.known t (mem_of_mem_take ht)
  ascends := h.ascends.sublist (take_sublist kept immutable)

/-- Some block of the chain that a replay selects is a child of the anchor. -/
def Connects (volatile : VolatileDB) (anchor : Hash32) : Prop :=
  volatile.selectedChain = [] ∨ ∃ x ∈ volatile.selectedChain, ∃ b,
    volatile.blocks.lookup x = some b ∧ b.prevHash = anchor

/-- With nothing flushed the replayed chain starts at genesis. -/
theorem linkedFrom_genesis (hreplayed : volatile.Replayed T)
    (hderived : volatile.Derived) (hconnects : Connects volatile 0) :
    LinkedFrom volatile.blocks 0 volatile.selectedChain := by
  obtain ⟨root, hlinked, -⟩ := hderived.linked
  rcases hconnects with hnil | ⟨x, hx, b, hb, hprev⟩
  · rw [hnil]
    trivial
  obtain ⟨before, after, hsplit⟩ := append_of_mem hx
  rw [hsplit] at hlinked ⊢
  have hpath := append_iff.1 hlinked
  have hstart := hpath.2.anchor_eq hb
  rw [hprev] at hstart
  rcases eq_nil_or_concat before with rfl | ⟨older, y, rfl⟩
  · cases hstart
    exact hlinked
  -- no stored block has the hash of genesis
  rw [concat_eq_append, getLast?_concat, Option.getD_some] at hstart
  obtain ⟨b', hb'⟩ := hpath.1.stored y (by simp)
  have hnone := hreplayed.stored hb'
  rw [hstart, T.genesis] at hnone
  cases hnone

/-- Pruning a chain that connects to the anchor leaves it anchored, with its tip. -/
theorem rooted_prune (hreplayed : volatile.Replayed T)
    (hderived : volatile.Derived) (table : Listing.Enumeration Hash32) {anchor : Hash32}
    (hconnects : Connects volatile anchor) :
    let pruned := volatile.pruneUnreachableFrom table anchor
    LinkedFrom pruned.blocks anchor pruned.selectedChain ∧
      pruned.tip = recomputeTip pruned.blocks pruned.selectedChain ∧
      ∀ {h b}, pruned.blocks.lookup h = some b → T.block h = some b := by
  obtain ⟨root, hlinked, hroot⟩ := hderived.linked
  set unreachable := (table.list volatile.blocks.keys).filter
    fun h => h ∉ volatile.reachable anchor with hunreachable
  have hmem : ∀ {x}, x ∈ unreachable ↔ x ∈ volatile.blocks ∧ x ∉ volatile.reachable anchor := by
    intro x
    rw [hunreachable, mem_filter, table.mem_list, Finmap.mem_keys]
    simp
  have hblocks : (volatile.pruneUnreachableFrom table anchor).blocks =
      volatile.blocks.eraseAll unreachable := removeBlocksInMemory_blocks _
  have hkeep : ∀ x ∈ volatile.reachable anchor,
      (volatile.blocks.eraseAll unreachable).lookup x = volatile.blocks.lookup x := by
    intro x hx
    rw [lookup_eraseAll, if_neg fun h => (hmem.1 h).2 hx]
  have hchain : (volatile.pruneUnreachableFrom table anchor).selectedChain =
      volatile.selectedChain.filter (· ∈ volatile.reachable anchor) := by
    refine filter_congr fun x hx => ?_
    obtain ⟨b, hb⟩ := hlinked.stored x hx
    have hstored := mem_of_lookup_eq_some hb
    rw [← hunreachable, decide_eq_decide, hmem]
    simp [hstored]
  -- the path does not start at a reachable block: it would come back to it
  have hstart : root ∉ volatile.reachable anchor := by
    intro hreach
    obtain ⟨b, hb, -⟩ := hreplayed.mem_reachable.1 hreach
    have hin := hroot.resolve_left (by simp [hb])
    have := (hlinked.above hreplayed.stored (hreplayed.stored hb) root hin).1
    omega
  dsimp only
  rw [hchain, hblocks]
  have hpath := hreplayed.linkedFrom_filter hlinked hstart
  have hsame : ∀ x ∈ volatile.selectedChain.filter (· ∈ volatile.reachable anchor),
      (volatile.blocks.eraseAll unreachable).lookup x = volatile.blocks.lookup x := by
    intro x hx
    exact hkeep x (by simpa using (mem_filter.1 hx).2)
  refine ⟨hpath.congr hsame, ?_, fun {h b} hb => ?_⟩
  · rw [pruneUnreachableFrom, removeBlocksInMemory_tip, hderived.tip,
      recomputeTip_congr hsame, recomputeTip, recomputeTip]
    rcases hconnects with hnil | ⟨x, hx, b, hb, hprev⟩
    · rw [hnil]
      rfl
    obtain ⟨before, after, hsplit⟩ := append_of_mem hx
    rw [hsplit] at hlinked ⊢
    have hall := hreplayed.all_reachable (append_iff.1 hlinked).2
      (.inl ((append_iff.1 hlinked).2.anchor_eq hb |>.trans hprev))
    have hrest : (x :: after).filter (· ∈ volatile.reachable anchor) = x :: after :=
      filter_eq_self.2 (by simpa using hall)
    rw [filter_append, hrest, getLast?_append_of_ne_nil _ (cons_ne_nil x after),
      getLast?_append_of_ne_nil _ (cons_ne_nil x after)]
  · rw [lookup_eraseAll] at hb
    split at hb
    · cases hb
    · exact hreplayed.stored hb

/-- The entries of the log that a replay reads. -/
def replayedEntries (s : ChainStore) (replayed : List Hash32) : List (Hash32 × VolatileBlock) :=
  replayed.filterMap fun h => (s.wal.lookup h).map (Prod.mk h)

variable (hs : Sound T s)
include hs

/-- An opening whose best replayed chain connects to the immutable tip is anchored. -/
theorem Sound.reopen (table : Listing.Enumeration Hash32) (replayed : List Hash32) (kept : Nat)
    (hconnects : Connects (.openFrom table (s.replayedEntries replayed))
      (onDisk s.securityParamK s.wal (s.immutable.take kept)).anchor) :
    Sound T (s.reopen table replayed kept) := by
  have hdisk := sound_onDisk s.securityParamK (hs.disk.take kept)
  have hentries : ∀ e ∈ s.replayedEntries replayed, T.block e.1 = some e.2 := by
    intro e he
    obtain ⟨h, -, he⟩ := mem_filterMap.1 he
    obtain ⟨b, hb, rfl⟩ := Option.map_eq_some_iff.1 he
    exact hs.disk.wal hb
  obtain ⟨hreplayed, hderived⟩ := openFrom_spec table hentries
  rw [ChainStore.reopen]
  split
  · next hnone =>
    have hanchor : (onDisk s.securityParamK s.wal (s.immutable.take kept)).anchor = 0 := by
      rw [anchor, hnone]
      rfl
    rw [hanchor] at hconnects
    refine hdisk.of_volatile hreplayed.stored ?_ hderived.tip
    rw [hanchor]
    exact linkedFrom_genesis hreplayed hderived hconnects
  · next tip hsome =>
    have hanchor : (onDisk s.securityParamK s.wal (s.immutable.take kept)).anchor = tip.hash := by
      rw [anchor, hsome]
      rfl
    rw [hanchor] at hconnects
    obtain ⟨hlinked, htip, hstored⟩ := rooted_prune hreplayed hderived table hconnects
    have hpruned := hdisk.of_volatile hstored (hanchor ▸ hlinked) htip
    refine hpruned.of_wal fun {h b} hb => ?_
    split at hb
    · exact hs.disk.wal hb
    · exact hstored hb

/-! ## Every operation -/

/-- An insertion of a block of the table: into an empty chain only as a child of the anchor. -/
theorem Sound.insert {block : NewBlock}
    (htable : T.block block.hash = some ⟨block.slot, block.blockNo, block.prevHash⟩)
    (hfresh : s.hasBlock block.hash = false) (view : Option LoeView) {allowExtend : Bool}
    (hempty : allowExtend = true → s.volatile.selectedChain = [] → block.prevHash = s.anchor) :
    Sound T { s with
      loeView := view
      volatile := (s.volatile.addBlockGated block.hash block.slot block.blockNo block.prevHash
        block.header allowExtend).1
      wal := s.logBlock block } := by
  have hnone : s.volatile.blocks.lookup block.hash = none := by
    rw [ChainDB.hasBlock, Bool.or_eq_false_iff, hasBlock] at hfresh
    simpa using hfresh.1
  have hsame : ∀ x ∈ s.volatile.selectedChain,
      (Finmap.insert block.hash (⟨block.slot, block.blockNo, block.prevHash⟩ : VolatileBlock)
        s.volatile.blocks).lookup x = s.volatile.blocks.lookup x := by
    intro x hx
    obtain ⟨b, hb⟩ := hs.linked.stored x hx
    rw [lookup_insert_ite, if_neg]
    rintro rfl
    rw [hnone] at hb
    cases hb
  have hinsert : ∀ {m}, (∀ {h b}, m.lookup h = some b → T.block h = some b) → ∀ {h b},
      (Finmap.insert block.hash (⟨block.slot, block.blockNo, block.prevHash⟩ : VolatileBlock)
        m).lookup h = some b → T.block h = some b := by
    intro m hm h b hb
    rw [lookup_insert_ite] at hb
    split at hb
    · next heq =>
      cases hb
      exact heq ▸ htable
    · exact hm hb
  have hchain := s.volatile.addBlockGated_selection block.hash block.slot
    block.blockNo block.prevHash block.header allowExtend
  refine (Sound.of_volatile (s := { s with loeView := view, wal := s.logBlock block })
    ⟨{ hs with }, { hs.disk with wal := hinsert hs.disk.wal }, hs.stored,
      hs.immutableTip, hs.immutableBlocks, hs.flushed⟩ ?_ ?_ ?_)
  · rw [addBlockGated_blocks]
    exact hinsert hs.stored
  · rw [addBlockGated_blocks]
    rcases hchain with ⟨hchain, -⟩ | ⟨hallow, hchain, -, hlast⟩ <;> rw [hchain]
    · exact hs.linked.congr hsame
    refine append_iff.2 ⟨hs.linked.congr hsame, _, lookup_insert _, ?_, trivial⟩
    cases hend : s.volatile.selectedChain.getLast? with
    | some tipHash => exact hlast tipHash hend
    | none => exact hempty hallow (getLast?_eq_none_iff.1 hend)
  · rw [addBlockGated_blocks]
    rcases hchain with ⟨hchain, htip⟩ | ⟨-, hchain, htip, -⟩ <;> rw [hchain, htip]
    · rw [recomputeTip_congr hsame, hs.tip]
    · rw [recomputeTip, getLast?_concat, Option.bind_some, lookup_insert]
      rfl

theorem Sound.of_isPrefix {tip : Option TipInfo} (hpre : chain <+: s.volatile.selectedChain)
    (htip : tip = recomputeTip s.volatile.blocks chain) :
    Sound T { s with volatile := { s.volatile with selectedChain := chain, tip } } :=
  hs.of_volatile hs.stored (hs.linked.of_isPrefix hpre) htip

theorem Sound.rollbackToPoint (point : Point) : Sound T (s.rollbackToPoint point) := by
  have hpre : ∀ slot hash, s.volatile.rollbackChain slot hash <+: s.volatile.selectedChain :=
    fun slot hash => rollbackChain_isPrefix slot hash
  have hroll : ∀ slot hash,
      Sound T { s with volatile := s.volatile.rollbackToPoint slot hash } := by
    intro slot hash
    refine hs.of_isPrefix (hpre slot hash) ?_
    rw [recomputeTip]
    cases hlast : (s.volatile.rollbackChain slot hash).getLast? with
    | none => rfl
    | some x =>
      obtain ⟨b, hb⟩ := hs.linked.stored x ((hpre slot hash).subset (mem_of_getLast? hlast))
      simp [hb]
  unfold ChainStore.rollbackToPoint
  cases point with
  | origin =>
    dsimp only
    split
    · exact hs
    · exact hroll 0 none
  | specific slot hash =>
  dsimp only
  split
  · exact hs
  · exact hroll slot (some hash)

theorem Sound.switchToFork (newTipHash : Hash32) {allow : Bool}
    (hallow : allow = true → s.immutableTip = none) :
    Sound T (s.switchToFork newTipHash allow) := by
  rw [ChainStore.switchToFork]
  split
  · next plan db hswitch =>
    obtain ⟨⟨plan', volatile⟩, hchain, heq⟩ := Option.map_eq_some_iff.1 hswitch
    cases heq
    obtain ⟨block, hblock, hlast, hdb⟩ := switchChain_eq_some hchain
    rw [hdb]
    refine hs.of_volatile hs.stored ?_ ?_
    · refine linkedFrom_switchChain hs.linked hchain ?_ fun h => by rw [hallow h]; rfl
      cases htip : s.immutableTip with
      | none => exact .inr ⟨rfl, by rw [anchor, htip]; rfl⟩
      | some tip => exact .inl (by rw [anchor, htip]; rfl)
    · rw [recomputeTip, hlast, Option.bind_some, hblock]
      rfl
  · exact hs

/-- Blocks that a collection or a removal takes out are not on the selected chain. -/
theorem Sound.of_erased (hchain : volatile.selectedChain = s.volatile.selectedChain)
    (htip : volatile.tip = s.volatile.tip)
    (hkeep : ∀ x ∈ s.volatile.selectedChain, volatile.blocks.lookup x = s.volatile.blocks.lookup x)
    (hsub : ∀ {x b}, volatile.blocks.lookup x = some b → s.volatile.blocks.lookup x = some b) :
    Sound T { s with volatile } := by
  refine hs.of_volatile (fun hb => hs.stored (hsub hb)) ?_ ?_
  · rw [hchain]
    exact hs.linked.congr hkeep
  · rw [hchain, htip, hs.tip, recomputeTip_congr hkeep]

theorem Sound.removeVolatileBlock {hash : Hash32}
    (hmem : hash ∉ s.volatile.selectedChain) : Sound T (s.removeVolatileBlock hash) := by
  rw [ChainStore.removeVolatileBlock, removeBlock]
  split
  · refine hs.of_erased ?_ ?_ (fun x hx => ?_) fun {x b} hx => ?_
    · refine filter_eq_self.2 fun x hx => ?_
      simpa using fun h : x = hash => hmem (h ▸ hx)
    · exact dropBlock_tip hash
    · rw [dropBlock_blocks, lookup_erase_ite, if_neg]
      rintro rfl
      exact hmem hx
    · have hx := hx
      rw [dropBlock_blocks, lookup_erase_ite] at hx
      split at hx
      · cases hx
      · exact hx
  · exact hs

theorem Sound.gcVolatile (expired : List Hash32) : Sound T (s.gcVolatile expired) := by
  obtain ⟨hchain, htip, hkeep, hsub⟩ := gcOrphanedBlocks_spec expired s.volatile
  refine (hs.of_erased hchain htip hkeep hsub).of_wal fun {h b} hb => ?_
  split at hb
  · exact hs.disk.wal hb
  · exact hs.stored (hsub hb)

theorem Sound.clearVolatile : Sound T s.clearVolatile := by
  have hcleared : Sound T { s with
      volatile := { empty with unknownPrev := s.volatile.unknownPrev } } :=
    hs.of_volatile (fun h => (nomatch h)) trivial rfl
  exact hcleared.of_wal fun h => (nomatch h)

theorem Sound.putBlocksBatch {blocks : List TipInfo}
    (hchain : blocks ≠ [] → s.volatile.selectedChain = [])
    (hdisk : Consistent T s.wal (s.immutable ++ blocks)) : Sound T (s.putBlocksBatch blocks) := by
  rw [ChainStore.putBlocksBatch]
  cases hlast : blocks.getLast? with
  | none => exact hs
  | some last =>
  have hnil := hchain (ne_nil_of_mem (mem_of_getLast? hlast))
  have hend : (s.immutable ++ blocks).getLast? = some last := by
    rw [getLast?_append, hlast]
    rfl
  refine ⟨⟨?_, hs.tip⟩, hdisk, hs.stored, hend.symm, ?_, ?_⟩
  · rw [hnil]
    trivial
  · rw [hs.immutableBlocks, map_append, toFinset_append]
  · rw [hend]
    refine hs.flushed.trans ?_
    cases htip : s.immutable.getLast? with
    | none => exact Nat.zero_le _
    | some tip =>
      obtain ⟨-, -, hcross⟩ := pairwise_append.1 hdisk.ascends
      exact (hcross tip (mem_of_getLast? htip) last (mem_of_getLast? hlast)).2

end ChainStore

/-! ## Runs -/

/-- The operation moves the chain, the anchor and the tip together. A block that is new comes from
the table, and into an empty chain as a child of the anchor; a switch may go back to genesis only when
nothing is flushed; a flush retains a block; a block of the selected chain is not removed, and
nothing is appended to the immutable database below it; and the chain that an opening selects has a
child of the immutable tip on it. -/
def ChainOp.Safe (T : BlockTable) (s : ChainStore) : ChainOp → Prop
  | .addBlock published block => s.hasBlock block.hash = false →
    T.block block.hash = some ⟨block.slot, block.blockNo, block.prevHash⟩ ∧
      ((s.refreshLoeView published).loeAllowsExtension block.hash block.prevHash = true →
        s.volatile.selectedChain = [] → block.prevHash = s.anchor)
  | .addUngated block => s.hasBlock block.hash = false →
    T.block block.hash = some ⟨block.slot, block.blockNo, block.prevHash⟩ ∧
      (s.volatile.selectedChain = [] → block.prevHash = s.anchor)
  | .switchToFork _ ledgerCanReachOrigin => ledgerCanReachOrigin = true → s.immutableTip = none
  | .flushToImmutable => 0 < s.securityParamK
  | .flushToImmutableBatchRetain retainBlocks _ => 0 < retainBlocks
  | .removeVolatileBlock hash => hash ∉ s.volatile.selectedChain
  | .putBlocksBatch blocks =>
    (blocks ≠ [] → s.volatile.selectedChain = []) ∧
      ChainStore.Consistent T s.wal (s.immutable ++ blocks)
  | .reopen table replayed kept =>
    ChainStore.Connects (.openFrom table (s.replayedEntries replayed))
      (ChainStore.onDisk s.securityParamK s.wal (s.immutable.take kept)).anchor
  | _ => True

namespace ChainStore

variable {T : BlockTable} {s : ChainStore}

/-- Every operation of the run is safe where it happens. -/
def SafeRun (T : BlockTable) : ChainStore → List ChainOp → Prop
  | _, [] => True
  | s, op :: ops => op.Safe T s ∧ SafeRun T (s.apply op) ops

theorem Sound.addBlock (hs : Sound T s) (published : Option LoeState) (block : NewBlock)
    (h : (ChainOp.addBlock published block).Safe T s) : Sound T (s.addBlock published block) := by
  rw [ChainStore.addBlock, ChainDB.addBlock]
  split_ifs with hhas
  · exact hs
  have hview : s.refreshLoeView published =
      { s.toChainDB with loeView := (s.refreshLoeView published).loeView } := by
    cases published <;> rfl
  have hnew := Bool.eq_false_iff.2 hhas
  have hsound := hs.insert (h hnew).1 hnew (s.refreshLoeView published).loeView (h hnew).2
  rw [hview] at hsound ⊢
  exact hsound

theorem Sound.addUngated (hs : Sound T s) (block : NewBlock)
    (h : (ChainOp.addUngated block).Safe T s) : Sound T (s.addUngated block) := by
  rw [ChainStore.addUngated, ChainDB.addSelfForgedBlock]
  split_ifs with hhas
  · exact hs
  · have hnew := Bool.eq_false_iff.2 hhas
    exact hs.insert (h hnew).1 hnew s.loeView fun _ => (h hnew).2

/-- A safe operation keeps the invariant. -/
theorem Sound.apply (hs : Sound T s) {op : ChainOp} (h : op.Safe T s) : Sound T (s.apply op) := by
  cases op with
  | addBlock published block => exact hs.addBlock published block h
  | addUngated block => exact hs.addUngated block h
  | switchToFork newTipHash allow => exact hs.switchToFork newTipHash h
  | rollbackToPoint point => exact hs.rollbackToPoint point
  | truncateSelectionToDepth maxDepth =>
    rw [ChainStore.apply, VolatileDB.truncateSelectionToDepth]
    split
    · exact hs
    · refine hs.of_isPrefix ?_ rfl
      exact take_prefix maxDepth _
  | flushToImmutable => exact hs.flushRetaining h none
  | flushToImmutableBatchRetain retainBlocks maxBlocks =>
    exact hs.flushRetaining h (some maxBlocks)
  | gcVolatile expired => exact hs.gcVolatile expired
  | removeVolatileBlock hash => exact hs.removeVolatileBlock h
  | clearVolatile => exact hs.clearVolatile
  | compactWal => exact hs.of_wal hs.stored
  | putBlocksBatch blocks => exact hs.putBlocksBatch h.1 h.2
  | reopen table replayed kept => exact hs.reopen table replayed kept h

theorem Sound.run {ops : List ChainOp} (hs : Sound T s) (h : SafeRun T s ops) :
    Sound T (s.run ops) := by
  induction ops generalizing s with
  | nil => exact hs
  | cons op ops ih => exact ih (hs.apply h.1) h.2

/-- From whatever lies on disk, the selected chain is anchored, stored and ends in the recorded tip
after every run of safe operations. -/
theorem rooted_run (T : BlockTable) (k : Nat) {wal : FinMap Hash32 VolatileBlock}
    {immutable : List TipInfo} (hdisk : Consistent T wal immutable) {ops : List ChainOp}
    (hsafe : SafeRun T (onDisk k wal immutable) ops) :
    Rooted ((onDisk k wal immutable).run ops) :=
  ((sound_onDisk k hdisk).run hsafe).toRooted

/-! ## Chains that are not anchored -/

/-- Four blocks in a row. -/
def fourBlocks : BlockTable where
  block h :=
    if h = 1 then some ⟨10, 1, 0⟩
    else if h = 2 then some ⟨20, 2, 1⟩
    else if h = 3 then some ⟨30, 3, 2⟩
    else if h = 4 then some ⟨40, 4, 3⟩
    else none
  genesis := rfl
  child := by
    intro h b parent hb hparent
    split_ifs at hb <;> cases hb <;> first | (cases hparent; done) | (cases hparent; decide)

/-- The order of the hashes. -/
def byHash : Listing.Enumeration Hash32 := .sorted BitVec.toNat Hash32.eq_of_toNat

def block2 : NewBlock := ⟨2, 20, 2, 1, none⟩

/-- A run in which every operation is safe: blocks are added, one is flushed, and the database is
opened again. -/
def plainRun : List ChainOp :=
  [.addUngated ⟨1, 10, 1, 0, none⟩, .addUngated block2, .flushToImmutable, .reopen byHash [2, 1] 1]

theorem plainRun_rooted : Rooted ((onDisk 1 ∅ []).run plainRun) := by
  refine rooted_run fourBlocks 1 ⟨fun {h b} hb => ?_, by simp, .nil⟩ ?_
  · cases hb
  · refine ⟨fun _ => ⟨rfl, fun _ => rfl⟩, fun _ => ⟨rfl, fun h => ?_⟩, Nat.one_pos,
      .inr ⟨2, ?_, ⟨20, 2, 1⟩, ?_, rfl⟩, trivial⟩
    · exact absurd h (by decide +kernel)
    · decide +kernel
    · decide +kernel

theorem immutable_grows (s : ChainStore) {ops : List ChainOp}
    (h : ∀ t r n, .reopen t r n ∉ ops) : s.immutable <+: (s.run ops).immutable := by
  induction ops generalizing s with
  | nil => exact prefix_refl _
  | cons op ops ih =>
    refine .trans ?_ (ih (s.apply op) fun _ _ _ hmem => h _ _ _ (.tail _ hmem))
    cases op with
    | reopen => exact (h _ _ _ (.head _)).elim
    | switchToFork | rollbackToPoint | flushToImmutable | flushToImmutableBatchRetain
    | putBlocksBatch =>
      simp only [apply, switchToFork, rollbackToPoint, flushToImmutable,
        flushToImmutableBatchRetain, flushRetaining, putBlocksBatch]
      grind
    | _ => exact prefix_refl _

/-- Immutable blocks are final: until the next opening they stay, each is there once, and none
comes back to the selected chain. -/
theorem immutable_final (T : BlockTable) (k : Nat) {wal : FinMap Hash32 VolatileBlock}
    {immutable : List TipInfo} (hdisk : Consistent T wal immutable) {ops later : List ChainOp}
    (hsafe : SafeRun T (onDisk k wal immutable) (ops ++ later))
    (hopen : ∀ t r n, .reopen t r n ∉ later) :
    let s := (onDisk k wal immutable).run ops
    let s' := s.run later
    s.immutable <+: s'.immutable ∧ (s'.immutable.map (·.hash)).Nodup ∧
      ∀ t ∈ s'.immutable, t.hash ∉ s'.volatile.selectedChain := by
  intro s s'
  have hs : Sound T s' := by
    have hrun := (sound_onDisk k hdisk).run hsafe
    rwa [run, foldl_append] at hrun
  have hsum : ∀ t ∈ s'.immutable, T.height t.hash = t.slot + t.blockNo := fun t ht =>
    (height_of_known (hs.disk.known t ht)).1
  refine ⟨immutable_grows s hopen, ?_, fun t ht hx => ?_⟩
  · refine pairwise_map.2 (hs.disk.ascends.imp_of_mem fun {t u} ht hu h heq => h.1.ne ?_)
    rw [← hsum t ht, ← hsum u hu, heq]
  · exact (hs.above_immutable hx ht).1.ne (hsum t ht).symm

theorem flushed_final : (1 : Hash32) ∉ (((onDisk 1 ∅ []).run [.addUngated ⟨1, 10, 1, 0, none⟩,
    .addUngated block2]).run [.flushToImmutable]).volatile.selectedChain := by
  refine (immutable_final fourBlocks 1 ⟨by rintro _ _ ⟨⟩, by simp, .nil⟩ ?_ (by simp)).2.2
    ⟨10, 1, 1⟩ ?_
  · exact ⟨fun _ => ⟨rfl, fun _ => rfl⟩, fun _ => ⟨rfl, fun h => absurd h (by decide +kernel)⟩,
      Nat.one_pos, trivial⟩
  · decide +kernel

/-- A block that connects to nothing becomes the chain of an empty database. Removing the tip leaves
it recorded. An opening with a gap above the immutable tip drops the chain and keeps its tip. The
oldest block stays on the chain when it is copied to the immutable database. -/
theorem not_rooted :
    ¬Rooted ((onDisk 1 ∅ []).run [.addUngated block2]) ∧
      ¬Rooted ((onDisk 1 ∅ []).run
        [.addUngated ⟨1, 10, 1, 0, none⟩, .addUngated block2, .removeVolatileBlock 2]) ∧
      ¬Rooted ((onDisk 1 (singleton 4 ⟨40, 4, 3⟩) [⟨10, 1, 1⟩]).run
        [.reopen byHash [4] 1]) ∧
      ¬Rooted ((onDisk 1 ∅ []).run
        [.addUngated ⟨1, 10, 1, 0, none⟩, .addUngated block2, .putBlocksBatch [⟨10, 1, 1⟩]]) := by
  refine ⟨fun h => ?_, fun h => ?_, fun h => ?_, fun h => ?_⟩
  · obtain ⟨b, hb, hprev, -⟩ := h.linked
    cases hb
    exact absurd hprev (by decide)
  · exact absurd h.tip (by decide +kernel)
  · exact absurd h.tip (by decide +kernel)
  · obtain ⟨b, hb, hprev, -⟩ := h.linked
    cases hb
    exact absurd hprev (by decide)

end ChainStore

end Dugite
