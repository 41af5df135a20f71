import Dugite.Lib.FinMap
import Dugite.Primitives.Header

/-!
# The volatile database

Blocks that may still be rolled back, on every fork, with the selected chain as a list of hashes,
oldest first. `leaves` is kept along with the successor map; `insertBlockInternal` is the only
operation that adds to them. The write-ahead log, the indexes by slot and by block number, the
garbage collection schedule and the block bodies are left out: no function here reads them.

`walkChainBack` is a loop that stops at the first block already visited. It has the number of stored
blocks as fuel, which is enough: it ends at a parent that is not stored or is visited already
(`linkedFrom_walkChainBack`).
-/

namespace Dugite

open List Finmap

structure VolatileBlock where
  slot : Nat
  blockNo : Nat
  prevHash : Hash32
  deriving DecidableEq

/-- A tip as the databases keep it: slot, hash and block number. -/
structure TipInfo where
  slot : Nat
  hash : Hash32
  blockNo : Nat
  deriving DecidableEq

structure VolatileDB where
  blocks : FinMap Hash32 VolatileBlock
  /-- Headers of the blocks that arrived with one. -/
  headers : FinMap Hash32 BlockHeader
  successors : FinMap Hash32 (Finset Hash32)
  /-- Blocks without a successor. -/
  leaves : Finset Hash32
  selectedChain : List Hash32
  tip : Option TipInfo
  /-- Blocks recovered from a log that did not store their parent. -/
  unknownPrev : Finset Hash32

/-- What a switch of the selected chain rolls back (newest first) and applies (oldest first). -/
structure SwitchPlan where
  intersection : Hash32
  intersectionSlot : Nat
  (rollback apply : List Hash32)
  deriving DecidableEq

namespace VolatileDB

variable (db : VolatileDB)

def hasBlock (hash : Hash32) : Bool := (db.blocks.lookup hash).isSome

/-- The tip that the end of the selected chain gives. -/
def recomputeTip (blocks : FinMap Hash32 VolatileBlock) (chain : List Hash32) : Option TipInfo :=
  chain.getLast?.bind fun h =>
    (blocks.lookup h).map fun b => { slot := b.slot, hash := h, blockNo := b.blockNo }

/-! ## Insertion -/

/-- Store a block and report whether it extended the selected chain. -/
def insertBlockInternal (hash : Hash32) (slot blockNo : Nat) (prevHash : Hash32)
    (allowExtend : Bool) : VolatileDB × Bool :=
  let siblings := (db.successors.lookup prevHash).getD ∅
  let successors := insert prevHash (insert hash siblings) db.successors
  let blocks := insert hash ⟨slot, blockNo, prevHash⟩ db.blocks
  let parentless := db.leaves.erase prevHash
  -- a child may have been inserted before its parent
  let leaves := if (successors.lookup hash).getD ∅ = ∅ then insert hash parentless else parentless
  let stored := { db with blocks, successors, leaves }
  -- an empty selected chain is extended by any block
  let links := db.selectedChain.getLast?.all fun tipHash => prevHash = tipHash
  if allowExtend && links then
    ({ stored with
        selectedChain := db.selectedChain ++ [hash]
        tip := some ⟨slot, hash, blockNo⟩ }, true)
  else (stored, false)

/-- The insertion of a block with the gate of the Limit on Eagerness; a header is cached. -/
def addBlockGated (hash : Hash32) (slot blockNo : Nat) (prevHash : Hash32)
    (header : Option BlockHeader) (allowExtend : Bool) : VolatileDB × Bool :=
  let headers := header.elim db.headers fun h => insert hash h db.headers
  { db with headers }.insertBlockInternal hash slot blockNo prevHash allowExtend

/-! ## Walking back -/

/-- The loop of `walk_chain_back`; `chain` is what it has collected, oldest first, and also the set
of visited blocks. -/
def walkBack (blocks : FinMap Hash32 VolatileBlock) : Nat → List Hash32 → Hash32 → List Hash32
  | 0, chain, _ => chain
  | fuel + 1, chain, current =>
    match blocks.lookup current with
    | none => chain
    | some block =>
      if current ∈ chain then chain
      else if (blocks.lookup block.prevHash).isSome then
        walkBack blocks fuel (current :: chain) block.prevHash
      else current :: chain

/-- The ancestry of a block within the volatile database, oldest first. -/
def walkChainBack (tipHash : Hash32) : List Hash32 := walkBack db.blocks db.blocks.size [] tipHash

def candidateContainsInvalid (tipHash : Hash32) (invalid : Finset Hash32) : Bool :=
  (db.walkChainBack tipHash).any fun h => h ∈ invalid

/-! ## Fork tips and switching -/

/-- The leaves other than the selected tip, with block number and slot. `visit` is the order in
which the iteration over the hash set meets them. -/
def getAllForkTips (visit : List Hash32) : List TipInfo :=
  (visit.filter fun h => h ∈ db.leaves ∧ some h ≠ db.selectedChain.getLast?).filterMap fun h =>
    (db.blocks.lookup h).map fun b => ⟨b.slot, h, b.blockNo⟩

section
variable (newChain : List Hash32)

/-- The selected chain after its last block on `newChain`, newest first. -/
def rolledBack : List Hash32 := db.selectedChain.reverse.takeWhile fun h => h ∉ newChain

/-- The selected chain up to its last block on `newChain`. -/
def keptChain : List Hash32 := (db.selectedChain.reverse.dropWhile fun h => h ∉ newChain).reverse

/-- The plan of a switch to the end of `newChain`, before the check of its depth. -/
def switchPlan (immutableAnchor : Option (Hash32 × Nat))
    (allowGenesisAnchor : Bool) : Option SwitchPlan :=
  match (db.keptChain newChain).getLast? with
  | some intersection =>
    (db.blocks.lookup intersection).map fun b =>
      { intersection := intersection
        intersectionSlot := b.slot
        rollback := db.rolledBack newChain
        apply := newChain.drop (newChain.idxOf intersection + 1) }
  | none =>
    let rootPrev := newChain.head?.bind fun h => (db.blocks.lookup h).map (·.prevHash)
    let rootPrevIsKnownGenesis :=
      (newChain.head?.any fun h => h ∉ db.unknownPrev) ∧ rootPrev = some 0
    let whole := fun anchor slot =>
      { intersection := anchor
        intersectionSlot := slot
        rollback := db.selectedChain.reverse
        apply := newChain : SwitchPlan }
    if allowGenesisAnchor ∧ rootPrevIsKnownGenesis then some (whole 0 0)
    else match immutableAnchor, rootPrev with
      | some (anchorHash, anchorSlot), some prev =>
        if anchorHash = prev then some (whole anchorHash anchorSlot) else none
      | _, _ => none

end

/-- Make `newTipHash` the end of the selected chain, unless that is out of reach or rolls back more
than `maxRollback` blocks. -/
def switchChain (newTipHash : Hash32) (immutableAnchor : Option (Hash32 × Nat)) (maxRollback : Nat)
    (allowGenesisAnchor : Bool) : Option (SwitchPlan × VolatileDB) :=
  let newChain := db.walkChainBack newTipHash
  if newChain = [] then none
  else
    match db.switchPlan newChain immutableAnchor allowGenesisAnchor with
    | none => none
    | some plan =>
      if plan.rollback.length > maxRollback then none
      else
        let selectedChain := db.keptChain newChain ++ plan.apply
        some (plan, { db with selectedChain, tip := recomputeTip db.blocks selectedChain })

/-! ## Facts about insertion -/

variable {db} {tipHash : Hash32}

section
variable (hash : Hash32) (slot blockNo : Nat) (prevHash : Hash32) (header : Option BlockHeader)
  (allowExtend : Bool)

@[simp] theorem addBlockGated_blocks :
    (db.addBlockGated hash slot blockNo prevHash header allowExtend).1.blocks =
      insert hash ⟨slot, blockNo, prevHash⟩ db.blocks := by
  rw [addBlockGated, insertBlockInternal]
  split <;> rfl

theorem addBlockGated_selectedChain :
    let added := db.addBlockGated hash slot blockNo prevHash header allowExtend
    added.1.selectedChain = db.selectedChain ++ if added.2 then [hash] else [] := by
  rw [addBlockGated, insertBlockInternal]
  split <;> simp

end

/-! ## Facts about the walk -/

/-- The walk only adds older blocks in front. -/
theorem suffix_walkBack (blocks : FinMap Hash32 VolatileBlock) (fuel : Nat) :
    ∀ (chain : List Hash32) (current : Hash32), chain <:+ walkBack blocks fuel chain current := by
  induction fuel with
  | zero => exact fun chain _ => suffix_rfl
  | succ fuel ih =>
    intro chain current
    rw [walkBack]
    split
    · exact suffix_rfl
    split
    · exact suffix_rfl
    · split
      · exact (suffix_cons current chain).trans (ih _ _)
      · exact suffix_cons current chain

/-- A nonempty ancestry ends with the block it is the ancestry of. -/
theorem walkChainBack_getLast (h : db.walkChainBack tipHash ≠ []) :
    (db.walkChainBack tipHash).getLast? = some tipHash := by
  rw [walkChainBack] at h ⊢
  cases hfuel : db.blocks.size with
  | zero => simp [hfuel, walkBack] at h
  | succ fuel =>
  rw [hfuel, walkBack] at h
  rw [walkBack]
  cases hb : db.blocks.lookup tipHash with
  | none => simp [hb] at h
  | some block =>
  simp only [not_mem_nil, if_false]
  split
  · obtain ⟨older, hold⟩ := suffix_walkBack db.blocks fuel [tipHash] block.prevHash
    rw [← hold, getLast?_append]
    rfl
  · rfl

theorem lookup_of_walkChainBack (h : db.walkChainBack tipHash ≠ []) :
    ∃ block, db.blocks.lookup tipHash = some block := by
  rw [walkChainBack] at h
  cases hb : db.blocks.lookup tipHash with
  | some block => exact ⟨block, rfl⟩
  | none => cases hfuel : db.blocks.size <;> simp [hfuel, walkBack, hb] at h

/-! ## Facts about a switch -/

variable (db) in
/-- The selected chain that a switch to `newTipHash` leaves. -/
def chainThrough (newTipHash : Hash32) : List Hash32 :=
  let newChain := db.walkChainBack newTipHash
  match (db.keptChain newChain).getLast? with
  | some intersection =>
    db.keptChain newChain ++ newChain.drop (newChain.idxOf intersection + 1)
  | none => newChain

theorem keptChain_subset {newChain : List Hash32} {h : Hash32}
    (hlast : (db.keptChain newChain).getLast? = some h) : h ∈ newChain := by
  rw [keptChain, getLast?_reverse] at hlast
  have hhead := head?_dropWhile_not (fun h => decide (h ∉ newChain)) db.selectedChain.reverse
  rw [hlast] at hhead
  simpa using hhead

variable {newTipHash : Hash32} {anchor : Option (Hash32 × Nat)} {plan : SwitchPlan} {allow : Bool}

/-- What an accepted plan applies continues the part of the chain that is kept. -/
theorem keptChain_append_apply
    (h : db.switchPlan (db.walkChainBack newTipHash) anchor allow = some plan) :
    db.keptChain (db.walkChainBack newTipHash) ++ plan.apply = db.chainThrough newTipHash := by
  rw [switchPlan] at h
  rw [chainThrough]
  cases hlast : (db.keptChain (db.walkChainBack newTipHash)).getLast? with
  | some intersection =>
    simp only [hlast] at h
    obtain ⟨block, -, rfl⟩ := Option.map_eq_some_iff.1 h
    rfl
  | none =>
  simp only [hlast] at h
  rw [getLast?_eq_none_iff.1 hlast, nil_append]
  split at h
  · cases h
    rfl
  split at h
  · split at h
    · cases h
      rfl
    · cases h
  · cases h

theorem chainThrough_getLast (h : db.walkChainBack newTipHash ≠ []) :
    (db.chainThrough newTipHash).getLast? = some newTipHash := by
  have hend := walkChainBack_getLast h
  rw [chainThrough]
  cases hlast : (db.keptChain (db.walkChainBack newTipHash)).getLast? with
  | none => exact hend
  | some intersection =>
  rw [getLast?_append, hlast]
  set newChain := db.walkChainBack newTipHash
  have hmem := keptChain_subset hlast
  have hidx := idxOf_lt_length_iff.2 hmem
  cases hdrop : (newChain.drop (newChain.idxOf intersection + 1)).getLast? with
  | some last =>
    rw [getLast?_drop] at hdrop
    split at hdrop
    · cases hdrop
    · rw [← hdrop, hend]
      rfl
  | none =>
    -- the intersection is the last block of the new chain
    rw [getLast?_eq_none_iff, drop_eq_nil_iff] at hdrop
    have hpos : newChain.idxOf intersection = newChain.length - 1 := by omega
    have hget : newChain[newChain.length - 1]? = some intersection := by
      rw [← hpos, getElem?_eq_getElem hidx, getElem_idxOf]
    rw [getLast?_eq_getElem?, hget] at hend
    simpa using hend

/-- What a switch does. -/
theorem switchChain_eq_some {maxRollback : Nat} {db' : VolatileDB}
    (h : db.switchChain newTipHash anchor maxRollback allow = some (plan, db')) :
    ∃ block, db.blocks.lookup newTipHash = some block ∧
      (db.chainThrough newTipHash).getLast? = some newTipHash ∧
      db' = { db with
        selectedChain := db.chainThrough newTipHash
        tip := some ⟨block.slot, newTipHash, block.blockNo⟩ } := by
  rw [switchChain] at h
  split at h
  · cases h
  next hne =>
  obtain ⟨block, hblock⟩ := lookup_of_walkChainBack hne
  have hlast := chainThrough_getLast hne
  refine ⟨block, hblock, hlast, ?_⟩
  split at h
  · cases h
  next hplan =>
  split at h
  · cases h
  rw [keptChain_append_apply hplan] at h
  cases h
  rw [recomputeTip, hlast, Option.bind_some, hblock]
  rfl

end VolatileDB

end Dugite
