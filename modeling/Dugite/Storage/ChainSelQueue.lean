import Dugite.Consensus.ChainSelection
import Dugite.Lib.Listing
import Dugite.Storage.LoeTrim

/-!
# The chain database and the chain selection queue

`ChainDB` joins the volatile database with the tip of the immutable one. The queue processes one
message at a time: an arriving block is stored, and a selection pass compares every fork tip with
the selected one and may switch to the best of them. `runSelectionPass` picks one candidate and
tries no other when that one is refused.

What a message reads from outside the database is in `Surroundings`: the cache of invalid blocks,
the published Limit on Eagerness (it may be republished between the insertion and the pass), whether
the ledger can be rolled back to Origin, and the order in which the iteration over the hash set of
leaves meets them. The counters, logs and reply channels of the queue are left out.
-/

namespace Dugite

open Listing Option

structure ChainDB where
  volatile : VolatileDB
  immutableTip : Option TipInfo
  immutableBlocks : Finset Hash32
  securityParamK : Nat
  loeView : Option LoeView

inductive AddBlockResult where
  | addedAsTip (tip : TipInfo)
  | storedAsFork
  | invalid (reason : String)
  | alreadyKnown
  | triggeredFork (plan : SwitchPlan)
  deriving DecidableEq

/-- A block as a message carries it. -/
structure NewBlock where
  hash : Hash32
  slot : Nat
  blockNo : Nat
  prevHash : Hash32
  header : Option BlockHeader

namespace ChainDB

variable (db : ChainDB)

def getTipInfo : Option TipInfo :=
  match db.volatile.tip, db.immutableTip with
  | some v, some i => if v.slot ≥ i.slot then some v else some i
  | some v, none => some v
  | none, some i => some i
  | none, none => none

def hasBlock (hash : Hash32) : Bool := db.volatile.hasBlock hash || hash ∈ db.immutableBlocks

/-- `published` is what the governor has published, if a handle is installed. -/
def refreshLoeView (published : Option LoeState) : ChainDB :=
  match published with
  | some state => { db with loeView := some (LoeView.build state) }
  | none => db

def loeVerdict (candidateTip : Hash32) : LoeVerdict :=
  match db.loeView with
  | some view => if !view.disabled then loeVerdictForCandidate db.volatile candidateTip view
      else .allowed
  | none => .allowed

def loeAllowsExtension (hash prev : Hash32) : Bool :=
  match db.loeView with
  | some view => if !view.disabled then Dugite.loeAllowsExtension db.volatile hash prev view
      else true
  | none => true

/-- `add_block` and `add_block_with_header`. -/
def addBlock (published : Option LoeState) (block : NewBlock) : ChainDB × Bool :=
  if db.hasBlock block.hash then (db, false)
  else
    let db := db.refreshLoeView published
    let allowExtend := db.loeAllowsExtension block.hash block.prevHash
    let (volatile, extended) := db.volatile.addBlockGated block.hash block.slot block.blockNo
      block.prevHash block.header allowExtend
    ({ db with volatile }, extended)

/-- `add_self_forged_block` and its variant with a header: the node's own block is exempt from the
Limit on Eagerness. -/
def addSelfForgedBlock (block : NewBlock) : ChainDB × Bool :=
  if db.hasBlock block.hash then (db, false)
  else
    let (volatile, extended) := db.volatile.addBlockGated block.hash block.slot block.blockNo
      block.prevHash block.header true
    ({ db with volatile }, extended)

def switchToFork (newTipHash : Hash32) (ledgerCanReachOrigin : Bool) :
    Option (SwitchPlan × ChainDB) :=
  (db.volatile.switchChain newTipHash (db.immutableTip.map fun t => (t.hash, t.slot))
    db.securityParamK ledgerCanReachOrigin).map fun r => (r.1, { db with volatile := r.2 })

/-! ## The selection pass -/

/-- A fork tip as the Limit on Eagerness leaves it. -/
def trimToLoe (tip : TipInfo) : Option TipInfo :=
  match db.loeVerdict tip.hash with
  | .allowed => some tip
  | .trimmedTo t => (db.volatile.blocks.lookup t).map fun b => ⟨b.slot, t, b.blockNo⟩
  | .deferred => none

/-- The fork tips that a pass looks at. -/
def candidates (visit : List Hash32) : List TipInfo :=
  (db.volatile.getAllForkTips visit).filterMap db.trimToLoe

variable (P : Crypto)

/-- Whether the cached header of a candidate wins against a header. -/
def prefers (currentHeader : BlockHeader) (candidate : TipInfo) : Bool :=
  match db.volatile.headers.lookup candidate.hash with
  | some header => preferHeader P currentHeader header = .preferCandidate
  | none => false

def selectBestPraos (forkTips : List TipInfo) (currentHeader : BlockHeader) : Option TipInfo :=
  lastMax TipInfo.blockNo (forkTips.filter (db.prefers P currentHeader))

def selectBestLegacy (forkTips : List TipInfo) (currentTipBlockNo : Nat) : Option TipInfo :=
  lastMax TipInfo.blockNo (forkTips.filter fun c => c.blockNo > currentTipBlockNo)

def currentTipBlockNo : Nat := (db.getTipInfo.map (·.blockNo)).getD 0

def currentTipHeader : Option BlockHeader :=
  db.getTipInfo.bind fun t => db.volatile.headers.lookup t.hash

def bestFork (preferPraos : Bool) (forkTips : List TipInfo) : Option TipInfo :=
  match preferPraos, db.currentTipHeader with
  | true, some curH =>
    (db.selectBestPraos P forkTips curH).or (selectBestLegacy forkTips db.currentTipBlockNo)
  | _, _ => selectBestLegacy forkTips db.currentTipBlockNo

end ChainDB

structure PassInput where
  published : Option LoeState
  invalidSnapshot : Option (Finset Hash32)
  preferPraos : Bool
  ledgerCanReachOrigin : Bool
  visit : List Hash32

/-- Whether the ancestry of a candidate holds a block known to be invalid. -/
def ChainDB.refused (db : ChainDB) (input : PassInput) (candidate : Hash32) : Bool :=
  input.invalidSnapshot.any fun invalid => db.volatile.candidateContainsInvalid candidate invalid

variable (P : Crypto) (db : ChainDB)

/-- The result is none when there is no preferred candidate or it is out of reach. -/
def runSelectionPass (input : PassInput) : Option AddBlockResult × ChainDB :=
  let db := db.refreshLoeView input.published
  match db.bestFork P input.preferPraos (db.candidates input.visit) with
  | none => (none, db)
  | some fork =>
    if db.refused input fork.hash then (some .storedAsFork, db)
    else match db.switchToFork fork.hash input.ledgerCanReachOrigin with
      | some (plan, db') => (some (.triggeredFork plan), db')
      | none => (none, db)

/-! ## Messages -/

/-- An entry of the cache of invalid blocks, and whether it has outlived its time. -/
structure InvalidEntry where
  reason : String
  expired : Bool
  deriving DecidableEq

abbrev InvalidBlockCache := FinMap Hash32 InvalidEntry

variable (cache : InvalidBlockCache)

/-- The reason of an entry that has not expired; an expired entry is dropped. -/
def InvalidBlockCache.get (hash : Hash32) : Option String × InvalidBlockCache :=
  match cache.lookup hash with
  | some entry => if entry.expired then (none, Finmap.erase hash cache)
      else (some entry.reason, cache)
  | none => (none, cache)

/-- All hashes of the cache, expired or not; none for an empty cache. -/
def InvalidBlockCache.snapshot : Option (Finset Hash32) :=
  if cache.keys = ∅ then none else some cache.keys

inductive ChainSelMessage where
  | addBlock (block : NewBlock) (selfForged : Bool)
  | reprocessLoE

structure Surroundings where
  cache : InvalidBlockCache
  (publishedAtInsert publishedAtPass : Option LoeState)
  ledgerCanReachOrigin : Bool
  visit : List Hash32

/-- The input of a pass that reads these surroundings. -/
def Surroundings.passInput (env : Surroundings) (cache : InvalidBlockCache) (preferPraos : Bool) :
    PassInput where
  published := env.publishedAtPass
  invalidSnapshot := cache.snapshot
  preferPraos := preferPraos
  ledgerCanReachOrigin := env.ledgerCanReachOrigin
  visit := env.visit

/-- The result of a message that stored a block without switching to a fork. -/
def ChainDB.storedResult (db : ChainDB) (extended : Bool) : AddBlockResult :=
  match extended, db.getTipInfo with
  | true, some tip => .addedAsTip tip
  | _, _ => .storedAsFork

def processAddBlock (block : NewBlock) (selfForged : Bool)
    (env : Surroundings) : AddBlockResult × ChainDB :=
  if db.hasBlock block.hash then (.alreadyKnown, db)
  else if selfForged then
    let (db, extended) := db.addSelfForgedBlock block
    (db.storedResult extended, db)
  else
    match env.cache.get block.hash with
    | (some reason, _) => (.invalid reason, db)
    | (none, cache) =>
      let (db, extended) := db.addBlock env.publishedAtInsert block
      let (result, db) := runSelectionPass P db (env.passInput cache block.header.isSome)
      (result.getD (db.storedResult extended), db)

def processMessage (env : Surroundings) : ChainSelMessage → AddBlockResult × ChainDB
  | .addBlock block selfForged => processAddBlock P db block selfForged env
  | .reprocessLoE =>
    let (result, db) := runSelectionPass P db (env.passInput env.cache true)
    (result.getD .storedAsFork, db)

/-! ## A message as an insertion and a pass -/

/-- Whether a message gets as far as a selection pass. -/
def ChainSelMessage.runsPass (db : ChainDB) (env : Surroundings) : ChainSelMessage → Bool
  | .addBlock block selfForged =>
    !db.hasBlock block.hash && !selfForged && (env.cache.get block.hash).1.isNone
  | .reprocessLoE => true

/-- The pass that a message runs. -/
def ChainSelMessage.passInput (env : Surroundings) : ChainSelMessage → PassInput
  | .addBlock block _ => env.passInput (env.cache.get block.hash).2 block.header.isSome
  | .reprocessLoE => env.passInput env.cache true

/-- The database after the insertion of a message's block, if it is inserted. -/
def ChainDB.inserted (db : ChainDB) (env : Surroundings) : ChainSelMessage → ChainDB
  | .addBlock block selfForged =>
    if db.hasBlock block.hash then db
    else if selfForged then (db.addSelfForgedBlock block).1
    else if (env.cache.get block.hash).1.isSome then db
    else (db.addBlock env.publishedAtInsert block).1
  | .reprocessLoE => db

/-- A message inserts its block and runs a pass, or stops before it. -/
theorem processMessage_db (env : Surroundings) (msg : ChainSelMessage) :
    (processMessage P db env msg).2 =
      if msg.runsPass db env then (runSelectionPass P (db.inserted env msg) (msg.passInput env)).2
      else db.inserted env msg := by
  cases msg with
  | reprocessLoE => rfl
  | addBlock block own =>
  rw [processMessage, processAddBlock, ChainSelMessage.runsPass, ChainDB.inserted,
    ChainSelMessage.passInput]
  by_cases hknown : db.hasBlock block.hash = true
  · simp [hknown]
  rw [if_neg hknown, if_neg hknown, Bool.not_eq_true] at *
  cases own with
  | true => simp
  | false =>
    rw [hknown]
    rcases env.cache.get block.hash with ⟨_ | reason, cache⟩ <;> simp

/-! ## What the selection can pick -/

namespace ChainDB

variable {db : ChainDB} {P : Crypto} (published : Option LoeState)

@[simp] theorem refreshLoeView_volatile : (db.refreshLoeView published).volatile = db.volatile := by
  cases published <;> rfl

@[simp] theorem refreshLoeView_immutableTip :
    (db.refreshLoeView published).immutableTip = db.immutableTip := by
  cases published <;> rfl

@[simp] theorem refreshLoeView_getTipInfo :
    (db.refreshLoeView published).getTipInfo = db.getTipInfo := by
  cases published <;> rfl

/-- A candidate carries the data of a stored block. -/
theorem lookup_of_mem_candidates {visit : List Hash32} {c : TipInfo} (h : c ∈ db.candidates visit) :
    ∃ block, db.volatile.blocks.lookup c.hash = some block ∧ block.slot = c.slot ∧
      block.blockNo = c.blockNo := by
  obtain ⟨tip, htip, htrim⟩ := List.mem_filterMap.1 h
  rw [trimToLoe] at htrim
  split at htrim
  · cases htrim
    obtain ⟨l, -, hl⟩ := List.mem_filterMap.1 htip
    obtain ⟨b, hb, rfl⟩ := map_eq_some_iff.1 hl
    exact ⟨b, hb, rfl, rfl⟩
  · obtain ⟨b, hb, rfl⟩ := map_eq_some_iff.1 htrim
    exact ⟨b, hb, rfl, rfl⟩
  · cases htrim

/-- The pick of a pass is a candidate. It is preferred by its header, or longer than the selected
tip; in the second case no candidate is preferred by its header, if the pass looks at headers. -/
theorem bestFork_eq_some {preferPraos : Bool} {forkTips : List TipInfo} {fork : TipInfo}
    (h : db.bestFork P preferPraos forkTips = some fork) :
    (∃ curH, preferPraos = true ∧ db.currentTipHeader = some curH ∧
      fork ∈ forkTips.filter (db.prefers P curH) ∧
      ∀ c ∈ forkTips.filter (db.prefers P curH), c.blockNo ≤ fork.blockNo) ∨
    (fork ∈ forkTips ∧ db.currentTipBlockNo < fork.blockNo) := by
  have hlegacy : selectBestLegacy forkTips db.currentTipBlockNo = some fork →
      fork ∈ forkTips ∧ db.currentTipBlockNo < fork.blockNo := by
    intro h
    have := List.mem_filter.1 (lastMax_eq_some h).1
    exact ⟨this.1, of_decide_eq_true this.2⟩
  unfold bestFork at h
  split at h
  · next curH hcur =>
    rcases or_eq_some_iff.1 h with hpraos | ⟨-, hleg⟩
    · exact .inl ⟨curH, rfl, hcur, lastMax_eq_some hpraos⟩
    · exact .inr (hlegacy hleg)
  · exact .inr (hlegacy h)

/-- What a pass does: it leaves the database as it is, up to the view of the Limit on Eagerness, or
adopts its pick. -/
theorem runSelectionPass_cases (P : Crypto) (db : ChainDB) (input : PassInput) :
    (runSelectionPass P db input).2 = db.refreshLoeView input.published ∨
    ∃ fork plan db', (db.refreshLoeView input.published).bestFork P input.preferPraos
        ((db.refreshLoeView input.published).candidates input.visit) = some fork ∧
      (db.refreshLoeView input.published).switchToFork fork.hash input.ledgerCanReachOrigin =
        some (plan, db') ∧
      (runSelectionPass P db input).2 = db' := by
  rw [runSelectionPass]
  split
  · exact .inl rfl
  next fork hfork =>
  split
  · exact .inl rfl
  · split
    · next plan db' hswitch => exact .inr ⟨fork, plan, db', hfork, hswitch, rfl⟩
    · exact .inl rfl

/-- What adopting a tip does. -/
theorem switchToFork_eq_some {newTipHash : Hash32} {flag : Bool} {plan : SwitchPlan} {db' : ChainDB}
    (h : db.switchToFork newTipHash flag = some (plan, db')) :
    ∃ block, db.volatile.blocks.lookup newTipHash = some block ∧
      (db.volatile.chainThrough newTipHash).getLast? = some newTipHash ∧
      db' = { db with volatile :=
        { db.volatile with
          selectedChain := db.volatile.chainThrough newTipHash
          tip := some ⟨block.slot, newTipHash, block.blockNo⟩ } } := by
  obtain ⟨⟨plan', volatile'⟩, hswitch, heq⟩ := map_eq_some_iff.1 h
  cases heq
  obtain ⟨block, hblock, hlast, rfl⟩ := VolatileDB.switchChain_eq_some hswitch
  exact ⟨block, hblock, hlast, rfl⟩

end ChainDB

end Dugite
