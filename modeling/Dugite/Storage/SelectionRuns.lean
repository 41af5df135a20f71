import Dugite.Storage.ChainSelQueue
import Mathlib.Data.Finite.Sum
import Mathlib.Data.Fintype.Option

/-!
# Runs of selection passes

A database holds blocks of one `BlockTree`. A run alternates selection passes, with any published
Limit on Eagerness, invalid set and order of the fork tips, with changes of the database that leave
the selected tip or extend it by a child (`Step.grow`: arrivals, garbage collection, blocks becoming
immutable; a message is such a change and a pass, `processMessage_db`). `step_climbs` says what one
step does to the selected tip: nothing, or its rank rises.

A pass that starts at a Byron tip compares densities, and then a shorter chain can win, which the
length rule of a later pass undoes. `ByronAgrees` excludes that: if density prefers any candidate,
it prefers one that is longer.
-/

namespace Dugite

open ChainDB Option List FinMap Prod.Lex

/-- The blocks there are, by their hashes. A block is numbered above its parent, but for the epoch
boundary blocks of Byron, which repeat the number in a later slot. -/
structure BlockTree (P : Crypto) where
  header : Hash32 → Option BlockHeader
  grows : ∀ {h b p}, header h = some b → header b.prevHash = some p →
    p.blockNumber < b.blockNumber ∨
      b.isByron = true ∧ p.blockNumber = b.blockNumber ∧ p.slot < b.slot
  /-- Blocks of one pool at one slot carry one VRF output. -/
  oneVrf : ∀ {h h' b b'}, header h = some b → header h' = some b' →
    P.blake2b224 b.issuerVkey = P.blake2b224 b'.issuerVkey → b.slot = b'.slot →
    b.vrfResult.output = b'.vrfResult.output

/-- The end of the volatile chain, or of the immutable one when there is no volatile chain. -/
def ChainDB.selectedTip (db : ChainDB) : Option TipInfo := db.volatile.tip.or db.immutableTip

/-- A chain database whose blocks are those of a tree. -/
structure TreeDB {P : Crypto} (T : BlockTree P) extends ChainDB where
  stored : ∀ {h b}, volatile.blocks.lookup h = some b →
    ∃ header, T.header h = some header ∧ header.slot = b.slot ∧ header.blockNumber = b.blockNo
  cached : ∀ {h header}, volatile.headers.lookup h = some header → T.header h = some header
  tips : ∀ {t}, volatile.tip = some t ∨ immutableTip = some t →
    ∃ header, T.header t.hash = some header ∧ header.slot = t.slot ∧ header.blockNumber = t.blockNo

/-- If a pass compares the cached header of a Byron tip by density and density prefers a candidate,
it prefers one that is longer than the tip. -/
def ByronAgrees (P : Crypto) (db : ChainDB) (input : PassInput) : Prop :=
  input.preferPraos = true → ∀ curH, db.currentTipHeader = some curH → curH.isByron = true →
    (∃ c ∈ db.candidates input.visit, db.prefers P curH c = true) →
    ∃ c ∈ db.candidates input.visit, db.prefers P curH c = true ∧ curH.blockNumber < c.blockNo

variable {P : Crypto} {T : BlockTree P}

namespace TreeDB

variable {db : TreeDB T}

theorem header_of_selectedTip {t : TipInfo} (h : db.selectedTip = some t) :
    ∃ header, T.header t.hash = some header ∧ header.slot = t.slot ∧
      header.blockNumber = t.blockNo := by
  rcases or_eq_some_iff.1 h with hv | ⟨-, hi⟩
  · exact db.tips (.inl hv)
  · exact db.tips (.inr hi)

/-- A pass leaves a database of the same tree. -/
def pass (db : TreeDB T) (input : PassInput) : TreeDB T where
  toChainDB := (runSelectionPass P db.toChainDB input).2
  stored := by
    rcases runSelectionPass_cases P db.toChainDB input with h | ⟨_, _, db', -, hs, h⟩
    · rw [h, refreshLoeView_volatile]
      exact db.stored
    · obtain ⟨_, -, -, rfl⟩ := switchToFork_eq_some hs
      rw [h]
      simpa using @db.stored
  cached := by
    rcases runSelectionPass_cases P db.toChainDB input with h | ⟨_, _, db', -, hs, h⟩
    · rw [h, refreshLoeView_volatile]
      exact db.cached
    · obtain ⟨_, -, -, rfl⟩ := switchToFork_eq_some hs
      rw [h]
      simpa using @db.cached
  tips := by
    rcases runSelectionPass_cases P db.toChainDB input with h | ⟨_, _, db', -, hs, h⟩
    · rw [h, refreshLoeView_volatile, refreshLoeView_immutableTip]
      exact db.tips
    obtain ⟨block, hblock, -, rfl⟩ := switchToFork_eq_some hs
    rw [h]
    rintro t (ht | ht)
    · cases ht
      rw [refreshLoeView_volatile] at hblock
      exact db.stored hblock
    · rw [refreshLoeView_immutableTip] at ht
      exact db.tips (.inr ht)

end TreeDB

/-! ## The rank of a tip -/

namespace BlockTree

/-- The rank of the selected tip; no tip ranks below every block. -/
def rankAt (T : BlockTree P) (tip : Option Hash32) : WithBot Rank :=
  match tip.bind T.header with
  | some header => header.rank
  | none => ⊥

/-- `new` outranks `old`. -/
def Above (T : BlockTree P) (new old : Option Hash32) : Prop := T.rankAt old < T.rankAt new

theorem rankAt_some {h : Hash32} {header : BlockHeader} (hh : T.header h = some header) :
    T.rankAt (some h) = header.rank := by
  rw [rankAt, bind_some, hh]

/-- There is no endless climb: there are finitely many hashes. -/
theorem above_wellFounded (T : BlockTree P) : WellFounded T.Above := by
  have : IsTrans _ T.Above := ⟨fun _ _ _ hab hbc => lt_trans hbc hab⟩
  have : Std.Irrefl T.Above := ⟨fun _ => lt_irrefl _⟩
  have : Finite Hash32 := Finite.of_injective BitVec.toFin fun _ _ => BitVec.eq_of_toFin_eq
  exact Finite.wellFounded_of_trans_of_irrefl T.Above

end BlockTree

/-- The hash of the selected tip. -/
def ChainDB.tipHash (db : ChainDB) : Option Hash32 := db.selectedTip.map (·.hash)

/-- One step of a run. -/
inductive Step (db : TreeDB T) : TreeDB T → Prop
  /-- A selection pass; the volatile chain is not behind the immutable one. -/
  | pass (input : PassInput) (hlead : db.getTipInfo = db.selectedTip)
      (hbyron : ByronAgrees P (db.refreshLoeView input.published) input) : Step db (db.pass input)
  /-- A change of the database that keeps the selected tip or extends it by a child. -/
  | grow (db' : TreeDB T)
      (htip : db'.selectedTip = db.selectedTip ∨ ∃ new header, db'.selectedTip = some new ∧
        T.header new.hash = some header ∧ ∀ old ∈ db.selectedTip, header.prevHash = old.hash) :
      Step db db'

/-! ## One step -/

variable {db db' : TreeDB T}

/-- The pick of a pass outranks the tip the pass starts at. -/
theorem above_of_pick {input : PassInput} {fork : TipInfo} (hlead : db.getTipInfo = db.selectedTip)
    (hbyron : ByronAgrees P (db.refreshLoeView input.published) input)
    (hpick : (db.refreshLoeView input.published).bestFork P input.preferPraos
      ((db.refreshLoeView input.published).candidates input.visit) = some fork) :
    T.Above (some fork.hash) db.tipHash := by
  set cur := db.refreshLoeView input.published with hcur
  -- what the candidates are in the tree
  have hcand : ∀ c ∈ cur.candidates input.visit, ∃ header, T.header c.hash = some header ∧
      header.blockNumber = c.blockNo := by
    intro c hc
    obtain ⟨block, hblock, -, hno⟩ := lookup_of_mem_candidates hc
    rw [hcur, refreshLoeView_volatile] at hblock
    obtain ⟨header, hh, -, hn⟩ := db.stored hblock
    exact ⟨header, hh, hn.trans hno⟩
  rw [BlockTree.Above, tipHash]
  cases htip : db.selectedTip with
  | none =>
    have hmem : fork ∈ cur.candidates input.visit := by
      rcases bestFork_eq_some hpick with ⟨_, -, -, hmem, -⟩ | ⟨hmem, -⟩
      · exact (mem_filter.1 hmem).1
      · exact hmem
    obtain ⟨header, hh, -⟩ := hcand fork hmem
    rw [BlockTree.rankAt_some hh]
    exact WithBot.bot_lt_coe _
  | some tip =>
    obtain ⟨tipHeader, htipHeader, -, htipNo⟩ := TreeDB.header_of_selectedTip htip
    rw [map_some, BlockTree.rankAt_some htipHeader]
    have hinfo : cur.getTipInfo = some tip := by rw [hcur, refreshLoeView_getTipInfo, hlead, htip]
    -- a longer pick outranks the tip
    have hlonger : fork ∈ cur.candidates input.visit → tipHeader.blockNumber < fork.blockNo →
        (tipHeader.rank : WithBot Rank) < T.rankAt (some fork.hash) := by
      intro hmem hlt
      obtain ⟨header, hh, hn⟩ := hcand fork hmem
      rw [BlockTree.rankAt_some hh, WithBot.coe_lt_coe]
      exact rank_lt_of_blockNumber_lt (hn ▸ hlt)
    rcases bestFork_eq_some hpick with ⟨curH, hpraos, hcurH, hmem, hmax⟩ | ⟨hmem, hlt⟩
    · have hcurT : T.header tip.hash = some curH := by
        rw [currentTipHeader, hinfo, bind_some, hcur, refreshLoeView_volatile] at hcurH
        exact db.cached hcurH
      obtain rfl : tipHeader = curH := by
        rw [hcurT] at htipHeader
        exact (Option.some.inj htipHeader).symm
      obtain ⟨hmem, hpref⟩ := mem_filter.1 hmem
      cases hera : tipHeader.isByron with
      | true =>
        -- the longest of the preferred candidates is at least as long as the longer one
        obtain ⟨c, hc, hcpref, hclt⟩ := hbyron hpraos tipHeader hcurH hera ⟨fork, hmem, hpref⟩
        have := hmax c (mem_filter.2 ⟨hc, hcpref⟩)
        exact hlonger hmem (by omega)
      | false =>
      rw [prefers] at hpref
      split at hpref
      · next header hheader =>
        rw [hcur, refreshLoeView_volatile] at hheader
        have hT := db.cached hheader
        rw [BlockTree.rankAt_some hT, WithBot.coe_lt_coe]
        exact rank_lt_of_preferred hera (T.oneVrf hcurT hT) (of_decide_eq_true hpref)
      · cases hpref
    · refine hlonger hmem ?_
      rw [currentTipBlockNo, hinfo] at hlt
      rw [htipNo]
      exact hlt

/-- A step leaves the selected tip or raises its rank. -/
theorem step_climbs (h : Step db db') :
    db'.selectedTip = db.selectedTip ∨ T.Above db'.tipHash db.tipHash := by
  cases h with
  | pass input hlead hbyron =>
    rcases runSelectionPass_cases P db.toChainDB input with
      hstay | ⟨fork, plan, db', hpick, hswitch, hadopt⟩
    · left
      change (runSelectionPass P db.toChainDB input).2.selectedTip = _
      rw [hstay, selectedTip, selectedTip, refreshLoeView_volatile, refreshLoeView_immutableTip]
    right
    have hrank := above_of_pick hlead hbyron hpick
    obtain ⟨block, -, -, rfl⟩ := switchToFork_eq_some hswitch
    change T.Above ((runSelectionPass P db.toChainDB input).2.tipHash) _
    rw [hadopt]
    exact hrank
  | grow db' htip =>
    rcases htip with hsame | ⟨new, header, hnew, hheader, hparent⟩
    · exact .inl hsame
    right
    rw [BlockTree.Above, tipHash, tipHash, hnew, map_some, BlockTree.rankAt_some hheader]
    cases hold : db.selectedTip with
    | none => exact WithBot.bot_lt_coe _
    | some old =>
    obtain ⟨oldHeader, holdHeader, -, -⟩ := TreeDB.header_of_selectedTip hold
    rw [map_some, BlockTree.rankAt_some holdHeader, WithBot.coe_lt_coe]
    have hprev : T.header header.prevHash = some oldHeader := by
      rw [hparent old hold]
      exact holdHeader
    rcases T.grows hheader hprev with hlt | ⟨hbyron, hn, hslot⟩
    · exact rank_lt_of_blockNumber_lt hlt
    · -- an epoch boundary block outranks the block it follows
      refine toLex_lt_toLex.2 (.inr ⟨hn, ?_⟩)
      split
      · exact toLex_lt_toLex.2 (.inr ⟨rfl, toLex_lt_toLex.2 (.inl hslot)⟩)
      · exact toLex_lt_toLex.2 (.inl Nat.zero_lt_one)

/-! ## Runs -/

/-- Any number of steps. -/
abbrev Run : TreeDB T → TreeDB T → Prop := Relation.ReflTransGen Step

/-- A run leaves the selected tip where it was or raises its rank. -/
theorem run_climbs (h : Run db db') :
    db'.selectedTip = db.selectedTip ∨ T.Above db'.tipHash db.tipHash := by
  induction h with
  | refl => exact .inl rfl
  | tail _ hstep ih =>
    rcases step_climbs hstep with hsame | hup
    · rw [tipHash, hsame]
      exact ih
    rcases ih with hsame | hbefore
    · rw [tipHash, tipHash, hsame, ← tipHash] at hup
      exact .inr hup
    · exact .inr (lt_trans hbefore hup)

/-- The block number of the selected tip, 0 without one. -/
def ChainDB.selectedBlockNo (db : ChainDB) : Nat := (db.selectedTip.map (·.blockNo)).getD 0

/-- A higher rank has at least the block number. -/
theorem blockNo_le_of_above (h : T.Above db'.tipHash db.tipHash) :
    db.selectedBlockNo ≤ db'.selectedBlockNo := by
  rw [selectedBlockNo, selectedBlockNo]
  cases hold : db.selectedTip with
  | none => exact Nat.zero_le _
  | some old =>
  rw [BlockTree.Above, tipHash, tipHash, hold] at h
  obtain ⟨oldHeader, hoh, -, hon⟩ := TreeDB.header_of_selectedTip hold
  cases hnew : db'.selectedTip with
  | none =>
    rw [hnew] at h
    exact absurd h not_lt_bot
  | some new =>
  obtain ⟨newHeader, hnh, -, hnn⟩ := TreeDB.header_of_selectedTip hnew
  rw [hnew, map_some, map_some, BlockTree.rankAt_some hoh,
    BlockTree.rankAt_some hnh, WithBot.coe_lt_coe] at h
  have := blockNumber_le_of_rank_le h.le
  simp only [map_some, getD_some]
  omega

/-- Along every run whose passes compare Byron tips as `ByronAgrees` says, each change of the
selected tip climbs in a well-founded order, the block number of the tip never falls, and a tip that
was left is never selected again. -/
theorem selection_never_returns (T : BlockTree P) :
    WellFounded T.Above ∧
    (∀ db db' : TreeDB T, Step db db' →
      db'.selectedTip = db.selectedTip ∨ T.Above db'.tipHash db.tipHash) ∧
    (∀ db db' : TreeDB T, Run db db' → db.selectedBlockNo ≤ db'.selectedBlockNo) ∧
    ∀ first left later : TreeDB T, Run first left → Run left later →
      left.tipHash ≠ first.tipHash → later.tipHash ≠ first.tipHash := by
  refine ⟨T.above_wellFounded, fun _ _ => step_climbs, ?_, ?_⟩
  · intro db db' hrun
    rcases run_climbs hrun with hsame | hup
    · rw [selectedBlockNo, selectedBlockNo, hsame]
    · exact blockNo_le_of_above hup
  · intro first left later hleft hlater hne heq
    rcases run_climbs hleft with hsame | hup
    · exact hne (by rw [tipHash, hsame, tipHash])
    rcases run_climbs hlater with hsame | hup'
    · exact hne (by rw [← heq, tipHash, tipHash, hsame])
    · rw [heq] at hup'
      exact lt_asymm hup hup'

/-! ## Two forks -/

section
variable (headers : List BlockHeader)

/-- The tree of some headers without VRF outputs. -/
def headerTree (hgrows : ∀ b ∈ headers, ∀ p, headers.find? (fun c => c.headerHash = b.prevHash) =
      some p → p.blockNumber < b.blockNumber)
    (hvrf : ∀ b ∈ headers, b.vrfResult.output = []) : BlockTree Crypto.plain where
  header h := headers.find? fun b => b.headerHash = h
  grows {h b p} hb hp := .inl (hgrows b (mem_of_find?_eq_some hb) p hp)
  oneVrf {h h' b b'} hb hb' _ _ := by
    rw [hvrf b (mem_of_find?_eq_some hb), hvrf b' (mem_of_find?_eq_some hb')]

/-- All blocks of a tree are stored and their headers cached; one of its chains is selected. -/
def storedTree {T : BlockTree Crypto.plain}
    (hheaders : ∀ b ∈ headers, T.header b.headerHash = some b)
    (successors : FinMap Hash32 (Finset Hash32)) (leaves : Finset Hash32)
    (selectedChain : List Hash32) (tip : BlockHeader) (htip : tip ∈ headers) : TreeDB T where
  volatile :=
    { blocks := insertAll
        (headers.map fun b => (b.headerHash, ⟨b.slot, b.blockNumber, b.prevHash⟩)) ∅
      headers := insertAll (headers.map fun b => (b.headerHash, b)) ∅
      successors
      leaves
      selectedChain
      tip := some ⟨tip.slot, tip.headerHash, tip.blockNumber⟩
      unknownPrev := ∅ }
  immutableTip := none
  immutableBlocks := ∅
  securityParamK := 2160
  loeView := none
  stored {h b} hb := by
    rcases mem_of_lookup_insertAll hb with hmem | hnone
    · obtain ⟨header, hheader, heq⟩ := mem_map.1 hmem
      cases heq
      exact ⟨header, hheaders header hheader, rfl, rfl⟩
    · cases hnone
  cached {h header} hh := by
    rcases mem_of_lookup_insertAll hh with hmem | hnone
    · obtain ⟨header, hheader, heq⟩ := mem_map.1 hmem
      cases heq
      exact hheaders header hheader
    · cases hnone
  tips {t} ht := by
    rcases ht with ht | ht <;> cases ht
    exact ⟨tip, hheaders tip htip, rfl, rfl⟩

/-- A pass that compares headers and knows of no invalid block. -/
def headerPass (visit : List Hash32) : PassInput where
  published := none
  invalidSnapshot := none
  preferPraos := true
  ledgerCanReachOrigin := false
  visit

end

/-- A Conway fork: block 2 over block 1 is selected, and blocks 3 and 4 over block 1 are longer. -/
def conwayHeaders : List BlockHeader :=
  [.plain 9 1 0 0 0, .plain 9 2 1 2 1, .plain 9 3 1 3 1, .plain 9 4 3 5 2]

def conwayTree : BlockTree Crypto.plain :=
  headerTree conwayHeaders (by decide +kernel) (by decide +kernel)

def conwayFork : TreeDB conwayTree :=
  storedTree conwayHeaders (by decide +kernel) (insertAll [(1, {2, 3}), (3, {4})] ∅) {2, 4} [1, 2]
    (.plain 9 2 1 2 1) (by simp [conwayHeaders])

/-- A pass switches from block 2 to block 4, and no run comes back to block 2. -/
theorem conway_fork_left :
    conwayFork.tipHash = some 2 ∧ (conwayFork.pass (headerPass [2, 4])).tipHash = some 4 ∧
      ∀ later, Run (conwayFork.pass (headerPass [2, 4])) later → later.tipHash ≠ some 2 := by
  have hfirst : conwayFork.tipHash = some 2 := rfl
  have hleft : (conwayFork.pass (headerPass [2, 4])).tipHash = some 4 := by decide +kernel
  have hstep : Step conwayFork (conwayFork.pass (headerPass [2, 4])) := by
    refine .pass _ rfl fun _ curH hcur hbyron => ?_
    have hheader : conwayFork.currentTipHeader = some (.plain 9 2 1 2 1) := by decide +kernel
    cases hheader.symm.trans hcur
    cases hbyron
  refine ⟨hfirst, hleft, fun later hlater => ?_⟩
  rw [← hfirst]
  refine (selection_never_returns conwayTree).2.2.2 _ _ later (.single hstep) hlater ?_
  rw [hfirst, hleft]
  decide

/-- A Byron fork over one block: blocks 2 and 3 in slots 2 and 4, and block 4 in slot 1. The second
chain is shorter and denser. -/
def byronHeaders : List BlockHeader :=
  [.plain 1 1 0 0 0, .plain 1 2 1 2 1, .plain 1 3 2 4 2, .plain 1 4 1 1 1]

def byronTree : BlockTree Crypto.plain :=
  headerTree byronHeaders (by decide +kernel) (by decide +kernel)

/-- The first chain is selected, and every header is cached. -/
def byronFork : TreeDB byronTree :=
  storedTree byronHeaders (by decide +kernel) (insertAll [(1, {2, 4}), (2, {3})] ∅) {3, 4} [1, 2, 3]
    (.plain 1 3 2 4 2) (by simp [byronHeaders])

def byronPass : PassInput := headerPass [3, 4]

/-- The first pass leaves the longer chain for the denser one, and the second comes back. -/
theorem byron_selection_cycles :
    byronFork.getTipInfo = byronFork.selectedTip ∧
    (byronFork.pass byronPass).selectedBlockNo < byronFork.selectedBlockNo ∧
    (byronFork.pass byronPass).tipHash ≠ byronFork.tipHash ∧
    ((byronFork.pass byronPass).pass byronPass).tipHash = byronFork.tipHash := by
  decide +kernel

end Dugite
