import Mathlib.Data.List.Induction
import Dugite.Network.ChainSync

/-!
# What the client of a ChainSync server is told

The client is a second machine (`follow`): it keeps the last point of its chain and refuses a block
that does not follow that point and a rollback to a point that its chain does not have. A run is
`Legit` when the client can follow every message.

The server's cursor is the client's point as long as the client can follow (`Tracks`), and so a
block served at the cursor follows it. What goes wrong comes from three places: of the rollback
notices that have piled up only the newest is looked at, and its point may lie on a fork that the
client has not been sent; a lagging receiver rolls the client back to the tip; and the cursor is
looked up again after it has been checked. `Safe` says of an event that none of these happens, and
`legit_iff_safeRun` that this is exactly when the client is never misled.
-/

namespace Dugite.ChainSync

open List ServeCore ChainView Server Receiver

variable {hash : Hash32} {b : Block} {slot : Nat}

namespace BlockTree

variable {T : BlockTree} {h : Hash32} {c : List Block}

/-- The block of a hash. -/
def block (T : BlockTree) (h : Hash32) : Option Block := (T.chainTo h).bind (·.getLast?)

/-- The chain that ends in `h` has the point. -/
def has (T : BlockTree) (h : Hash32) (slot : Nat) (hash : Hash32) : Bool :=
  (T.chainTo h).any fun c => c.any fun b => b.slot = slot ∧ b.hash = hash

theorem has_iff : T.has h slot hash = true ↔
    ∃ c, T.chainTo h = some c ∧ ∃ b ∈ c, b.slot = slot ∧ b.hash = hash := by
  cases hc : T.chainTo h <;> simp [has, hc]

theorem eq_genesis_of_nil (hc : T.chainTo h = some []) : h = 0 := by
  by_contra hne
  obtain ⟨parent, b, heq, -⟩ := T.extends_parent hc hne
  simp at heq

variable {b : Block} {after parent before : List Block}

theorem ne_genesis_of_append (hc : T.chainTo h = some (parent ++ [b])) : h ≠ 0 := by
  rintro rfl
  rw [T.genesis] at hc
  simp at hc

/-- The last block of a chain, and the chain before it. -/
theorem last_of_append (hc : T.chainTo h = some (parent ++ [b])) :
    b.hash = h ∧ T.chainTo b.prevHash = some parent := by
  obtain ⟨parent', b', heq, hhash, hparent⟩ := T.extends_parent hc (ne_genesis_of_append hc)
  obtain ⟨rfl, hb⟩ := append_inj' heq rfl
  cases hb
  exact ⟨hhash, hparent⟩

/-- A chain up to one of its blocks is the chain of that block. -/
theorem chainTo_of_append (hc : T.chainTo h = some (before ++ b :: after)) :
    T.chainTo b.hash = some (before ++ [b]) := by
  induction after using List.reverseRecOn generalizing h with
  | nil => rwa [(last_of_append hc).1]
  | append_singleton after last ih =>
    rw [← cons_append, ← append_assoc] at hc
    exact ih (last_of_append hc).2

/-- A block follows the one before it. -/
theorem prevHash_of_append {a : Block}
    (hc : T.chainTo h = some (before ++ a :: b :: after)) : b.prevHash = a.hash := by
  have hb : T.chainTo b.hash = some ((before ++ [a]) ++ [b]) :=
    chainTo_of_append (by simpa using hc)
  exact (last_of_append (last_of_append hb).2).1.symm

/-- The first block of a chain follows genesis. -/
theorem prevHash_of_cons (hc : T.chainTo h = some (b :: after)) : b.prevHash = 0 := by
  have hchain : T.chainTo b.hash = some ([] ++ [b]) := chainTo_of_append (by simpa using hc)
  exact eq_genesis_of_nil (last_of_append hchain).2

theorem block_of_mem (hc : T.chainTo h = some c) (hb : b ∈ c) :
    T.block b.hash = some b ∧ ∃ c', T.chainTo b.hash = some c' := by
  obtain ⟨before, after, rfl⟩ := append_of_mem hb
  have hchain := chainTo_of_append hc
  exact ⟨by rw [block, hchain]; simp, _, hchain⟩

end BlockTree

/-! ## Lookups on the served chain -/

namespace ChainView

variable {T : BlockTree} {view : ChainView T}

theorem isOnChain_iff : view.isOnChain hash = true ↔ ∃ b ∈ view.chain, b.hash = hash := by
  simp [isOnChain]

/-- The lookup from a block of the chain finds its successor. -/
theorem prevHash_of_getNextBlockAfterPoint
    (hon : view.isOnChain hash = true) (h : view.getNextBlockAfterPoint slot hash = some b) :
    b ∈ view.chain ∧ b.prevHash = hash := by
  rw [getNextBlockAfterPoint, if_pos hon] at h
  have hsplit := takeWhile_append_dropWhile (p := fun b : Block => decide (b.hash ≠ hash))
    (l := view.chain)
  have hfirst := head?_dropWhile_not (fun b : Block => decide (b.hash ≠ hash)) view.chain
  cases hdrop : view.chain.dropWhile fun b => decide (b.hash ≠ hash) with
  | nil =>
    rw [hdrop] at h
    cases h
  | cons a rest =>
  rw [hdrop] at h hsplit hfirst
  obtain ⟨after, rfl⟩ : ∃ after, rest = b :: after := by
    cases rest with
    | nil => simp at h
    | cons b' after => exact ⟨after, by simpa using h⟩
  have ha : a.hash = hash := by simpa using hfirst
  refine ⟨by rw [← hsplit]; simp, ?_⟩
  rw [← ha]
  exact T.prevHash_of_append (hsplit ▸ view.chain_eq)

/-- A block of the chain does not follow a block that is not on it. -/
theorem prevHash_ne_of_not_isOnChain (hzero : hash ≠ 0)
    (hon : view.isOnChain hash = false) (hb : b ∈ view.chain) : b.prevHash ≠ hash := by
  rintro rfl
  obtain ⟨before, after, hchain⟩ := append_of_mem hb
  have hc := view.chain_eq
  rw [hchain] at hc
  rcases eq_nil_or_concat before with rfl | ⟨before, a, rfl⟩
  · exact hzero (T.prevHash_of_cons hc)
  rw [concat_eq_append, append_assoc, singleton_append] at hc
  have hprev := T.prevHash_of_append hc
  have hmem := isOnChain_iff.2 ⟨a, by rw [hchain]; simp, hprev.symm⟩
  rw [hmem] at hon
  cases hon

/-- From Origin the lookup finds the first block. -/
theorem prevHash_of_getBlockAtOrAfterSlot_zero
    (h : view.getBlockAtOrAfterSlot 0 = some b) : b ∈ view.chain ∧ b.prevHash = 0 := by
  have hc := view.chain_eq
  rw [getBlockAtOrAfterSlot] at h
  cases hchain : view.chain with
  | nil => simp [hchain] at h
  | cons first after =>
    obtain rfl : first = b := by simpa [hchain] using h
    rw [hchain] at hc
    exact ⟨mem_cons_self, T.prevHash_of_cons hc⟩

end ChainView

/-! ## The client -/

/-- The payload encoder and the client's decoder: a payload identifies its block. -/
structure Wire (T : BlockTree) where
  encode : Bytes → Except ProtocolError Bytes
  decode : Bytes → Option Hash32
  decode_encode : ∀ {b : Block} {payload : Bytes}, T.block b.hash = some b →
    encode b.cbor = .ok payload → decode payload = some b.hash

variable {T : BlockTree} (W : Wire T)

/-- The client's point after a message, if the message makes sense at the point `h`. -/
def follow (h : Hash32) : ChainSyncMessage → Option Hash32
  | .rollForward header _ =>
    ((W.decode header).bind T.block).bind fun b => if b.prevHash = h then some b.hash else none
  | .rollBackward .origin _ => some 0
  | .rollBackward (.specific slot hash) _ => if T.has h slot hash then some hash else none
  | .awaitReply => some h
  | .intersectFound .origin _ => some 0
  | .intersectFound (.specific _ hash) _ => some hash
  | .intersectNotFound _ => some h

def followAll (h : Hash32)
    (msgs : List ChainSyncMessage) : Option Hash32 := msgs.foldlM (follow W) h

/-- The client's point at the end of a run that it can follow from the point `h` on. -/
def clientRun {T : BlockTree} (W : Wire T) : Server → Hash32 → List (Event T) → Option Hash32
  | _, h, [] => some h
  | s, h, e :: events =>
    (followAll W h (s.step W.encode e).2).bind fun h' =>
      clientRun W (s.step W.encode e).1 h' events

/-- The client can follow every message of the run from the point `h` on. -/
def Legit (s : Server) (h : Hash32) (events : List (Event T)) : Prop :=
  (clientRun W s h events).isSome = true

/-! ## When an event cannot mislead the client -/

/-- A rollback to this point makes sense to a client at `h`. -/
def BlockTree.Names (T : BlockTree) (h : Hash32) (rb : RollbackAnnouncement) : Prop :=
  (rb.slot = 0 ∧ rb.hash = 0) ∨ T.has h rb.slot rb.hash = true

section
variable {T : BlockTree} (core : ServeCore) (encode : Bytes → Except ProtocolError Bytes)

/-- A cursor found on the chain is still there at the lookup, or the lookup by slot that replaces it
finds nothing to send. -/
def ServeCore.Settled (views : Views T) : Prop :=
  core.cursorAtOrigin = true ∨ views.check.isOnChain core.cursorHash = false ∨
    views.lookup.isOnChain core.cursorHash = true ∨
    ∀ b ∈ views.lookup.getNextBlockAfterSlot core.cursorSlot, ∃ e, encode b.cbor = .error e

/-- The notice that is acted on, if any, names a point of the client's chain; else the cursor is
settled. -/
def ServeCore.NoticeSafe (h : Hash32) (views : Views T)
    (notice : Option RollbackAnnouncement) : Prop :=
  match notice.filter core.beyond with
  | some rb => T.Names h rb
  | none => core.Settled encode views

end

/-- The event cannot mislead a client at `h`. -/
def Safe {T : BlockTree} (encode : Bytes → Except ProtocolError Bytes) (s : Server) (h : Hash32) :
    Event T → Prop
  | .requestNext views =>
    s.mode = .idle → s.core.NoticeSafe encode h views s.rollbacks.queue.getLast?
  | .wakeRollback views =>
    s.mode = .mustReply → if s.rollbacks.lagged then
        T.Names h ⟨views.check.getTip.slot, views.check.getTip.hash⟩
      else ∀ rb ∈ s.rollbacks.queue.head?, s.core.NoticeSafe encode h views (some rb)
  | .wakeAnnouncement views =>
    s.mode = .mustReply → if s.announcements.lagged then s.core.Settled encode views
      else s.announcements.queue ≠ [] → s.core.NoticeSafe encode h views s.rollbacks.queue.getLast?
  | .timeout views => s.mode = .mustReply → s.core.Settled encode views
  | _ => True

/-- Every event of the run is safe at the point that the client has reached. -/
def SafeRun {T : BlockTree} (W : Wire T) : Server → Hash32 → List (Event T) → Prop
  | _, _, [] => True
  | s, h, e :: events =>
    Safe W.encode s h e ∧ ∀ h', followAll W h (s.step W.encode e).2 = some h' →
      SafeRun W (s.step W.encode e).1 h' events

/-! ## The cursor is the client's point -/

/-- The cursor is the client's point, and the client's point has a chain. -/
structure Tracks (T : BlockTree) (core : ServeCore) (h : Hash32) : Prop where
  hash : core.cursorHash = h
  chain : ∃ c, T.chainTo h = some c
  atOrigin : core.cursorAtOrigin = true → h = 0

section
variable {T : BlockTree} {W : Wire T} {core : ServeCore} {h : Hash32}

/-- A message moves the client to the new cursor, and makes sense to it exactly when `P` holds. -/
structure Moves (W : Wire T) (h : Hash32) (core : ServeCore) (msg : ChainSyncMessage) (P : Prop) :
    Prop where
  tracks : ∀ h', follow W h msg = some h' → Tracks T core h'
  sense : (∃ h', follow W h msg = some h') ↔ P

variable {msg : ChainSyncMessage} {core' : ServeCore} {payload : Bytes} {views : Views T}

theorem Moves.of_some {h' : Hash32} {P : Prop}
    (hfollow : follow W h msg = some h') (htracks : Tracks T core' h') (hP : P) :
    Moves W h core' msg P := by
  refine ⟨fun h'' hh => ?_, iff_of_true ⟨h', hfollow⟩ hP⟩
  obtain rfl : h' = h'' := by simpa [hfollow] using hh
  exact htracks

theorem Moves.of_none {P : Prop}
    (hfollow : follow W h msg = none) (hP : ¬P) : Moves W h core' msg P := by
  refine ⟨fun h' hh => ?_, iff_of_false (fun ⟨h', hh⟩ => ?_) hP⟩ <;>
  · rw [hfollow] at hh
    cases hh

/-- A rollback makes sense exactly when it names a point of the client's chain. -/
theorem moves_sendRollback (tip : TipInfo) (rb : RollbackAnnouncement) :
    Moves W h (core.sendRollback tip rb).1 (core.sendRollback tip rb).2 (T.Names h rb) := by
  by_cases hzero : rb.slot = 0 ∧ rb.hash = 0
  · rw [sendRollback, if_pos hzero]
    exact .of_some rfl ⟨hzero.2, ⟨[], T.genesis⟩, fun _ => rfl⟩ (.inl hzero)
  rw [sendRollback, if_neg hzero]
  by_cases hhas : T.has h rb.slot rb.hash = true
  · obtain ⟨c, hc, b, hb, -, hhash⟩ := T.has_iff.1 hhas
    refine .of_some (if_pos hhas) ⟨rfl, ?_, fun hat => ?_⟩ (.inr hhas)
    · exact hhash ▸ (T.block_of_mem hc hb).2
    · exact absurd hat (by simp)
  · exact .of_none (if_neg hhas) (not_or.2 ⟨hzero, hhas⟩)

/-- Where the server rewinds to is on the client's chain. -/
theorem names_rewindPoint (htracks : Tracks T core h) (view : ChainView T) :
    T.Names h (core.rewindPoint view) := by
  rw [rewindPoint]
  cases hfind : view.findChainAncestor core.cursorHash with
  | none => exact .inl ⟨rfl, rfl⟩
  | some a =>
    obtain ⟨-, c, hc, ha⟩ := view.ancestor_mem hfind
    rw [htracks.hash] at hc
    exact .inr (T.has_iff.2 ⟨c, hc, a, ha, rfl, rfl⟩)

/-- A block of the tree makes sense exactly when it follows the client's point. -/
theorem moves_rollForward {view : ChainView T} (tip : TipInfo)
    (hb : b ∈ view.chain) (hpayload : W.encode b.cbor = .ok payload) :
    Moves W h { core with cursorSlot := b.slot, cursorHash := b.hash, cursorAtOrigin := false }
      (.rollForward payload tip) (b.prevHash = h) := by
  obtain ⟨hblock, hchain⟩ := T.block_of_mem view.chain_eq hb
  have hfollow : follow W h (.rollForward payload tip) =
      if b.prevHash = h then some b.hash else none := by
    simp [follow, W.decode_encode hblock hpayload, hblock]
  split at hfollow
  · next hprev => exact .of_some hfollow ⟨rfl, hchain, (nomatch ·)⟩ hprev
  · next hprev => exact .of_none hfollow hprev

/-! ## A serve attempt -/

/-- A serve attempt moves the client to the new cursor, and misleads it unless `P` holds. -/
def Serves (W : Wire T) (core : ServeCore) (h : Hash32) (P : Prop) :
    Except ProtocolError (ServeCore × Option ChainSyncMessage) → Prop
  | .error _ => P
  | .ok (core', none) => core' = core ∧ P
  | .ok (core', some msg) => Moves W h core' msg P

/-- The block at a cursor that is settled follows the client's point. -/
theorem prevHash_nextBlock_iff (htracks : Tracks T core h) (hcheck : core.cursorAtOrigin = true ∨
      views.check.isOnChain core.cursorHash = true)
    (hnext : core.nextBlock views.lookup = some b) (hpayload : W.encode b.cbor = .ok payload) :
    b ∈ views.lookup.chain ∧ (b.prevHash = h ↔ core.Settled W.encode views) := by
  have hash := htracks.hash
  rw [nextBlock] at hnext
  split at hnext
  · next hat =>
    obtain ⟨hb, hprev⟩ := prevHash_of_getBlockAtOrAfterSlot_zero hnext
    exact ⟨hb, iff_of_true (hprev.trans (htracks.atOrigin hat).symm) (.inl hat)⟩
  next hat =>
  have hon := hcheck.resolve_left hat
  by_cases hlookup : views.lookup.isOnChain core.cursorHash = true
  · obtain ⟨hb, hprev⟩ := prevHash_of_getNextBlockAfterPoint hlookup hnext
    exact ⟨hb, iff_of_true (hprev.trans hash) (.inr (.inr (.inl hlookup)))⟩
  -- the cursor has left the chain since it was checked
  rw [getNextBlockAfterPoint, if_neg hlookup] at hnext
  have hb := mem_of_find?_eq_some hnext
  have hzero : core.cursorHash ≠ 0 := by
    intro hzero
    obtain ⟨b', hb', hgenesis⟩ := isOnChain_iff.1 hon
    obtain ⟨before, after, hchain⟩ := append_of_mem hb'
    exact T.ne_genesis_of_append (T.chainTo_of_append (hchain ▸ views.check.chain_eq))
      (hgenesis.trans hzero)
  refine ⟨hb, iff_of_false ?_ ?_⟩
  · rw [← hash]
    exact prevHash_ne_of_not_isOnChain hzero (Bool.eq_false_iff.2 hlookup) hb
  · rintro (hat' | hoff | hlookup' | hnone)
    · exact hat hat'
    · rw [hon] at hoff
      cases hoff
    · exact hlookup hlookup'
    · obtain ⟨e, he⟩ := hnone b hnext
      rw [hpayload] at he
      cases he

/-- With nothing to serve the cursor is settled. -/
theorem settled_of_nextBlock
    (hnone : ∀ b ∈ core.nextBlock views.lookup, ∃ e, W.encode b.cbor = .error e) :
    core.Settled W.encode views := by
  by_cases hat : core.cursorAtOrigin = true
  · exact .inl hat
  by_cases hlookup : views.lookup.isOnChain core.cursorHash = true
  · exact .inr (.inr (.inl hlookup))
  · rw [nextBlock, if_neg hat, getNextBlockAfterPoint, if_neg hlookup] at hnone
    exact .inr (.inr (.inr hnone))

theorem serves_tryServeNextBlock (htracks : Tracks T core h) (views : Views T) :
    Serves W core h (core.Settled W.encode views) (core.tryServeNextBlock W.encode views) := by
  rw [tryServeNextBlock]
  split
  · next hoff =>
    rw [Bool.and_eq_true, Bool.not_eq_true', Bool.not_eq_true'] at hoff
    set rb := core.rewindPoint views.lookup with hrb
    have hmoves : Moves W h (core.sendRollback views.tip.getTip rb).1
        (core.sendRollback views.tip.getTip rb).2 (T.Names h rb) :=
      moves_sendRollback views.tip.getTip rb
    refine ⟨hmoves.tracks, hmoves.sense.trans ?_⟩
    exact iff_of_true (hrb ▸ names_rewindPoint htracks views.lookup) (.inr (.inl hoff.2))
  next hon =>
  have hcheck : core.cursorAtOrigin = true ∨ views.check.isOnChain core.cursorHash = true := by
    simpa [or_iff_not_imp_left] using hon
  cases hnext : core.nextBlock views.lookup with
  | none => exact ⟨rfl, settled_of_nextBlock (by simp [hnext])⟩
  | some b =>
  dsimp only
  cases hpayload : W.encode b.cbor with
  | error e => exact settled_of_nextBlock (by simp [hnext, hpayload])
  | ok payload =>
    obtain ⟨hb, hiff⟩ := prevHash_nextBlock_iff htracks hcheck hnext hpayload
    rw [← hiff]
    exact moves_rollForward views.tip.getTip hb hpayload

theorem serves_rollbackOrServe (htracks : Tracks T core h) (views : Views T)
    (notice : Option RollbackAnnouncement) :
    Serves W core h (core.NoticeSafe W.encode h views notice)
      (core.rollbackOrServe W.encode views notice) := by
  rw [rollbackOrServe, ServeCore.NoticeSafe]
  cases notice.filter core.beyond with
  | some rb => exact moves_sendRollback views.tip.getTip rb
  | none => exact serves_tryServeNextBlock htracks views

/-- The first of the client's points that is found becomes the cursor. -/
theorem moves_handleFindIntersect (htracks : Tracks T core h) (tip : TipInfo)
    (points : List (Point × ChainView T)) :
    Moves W h (core.handleFindIntersect tip points).1 (core.handleFindIntersect tip points).2
      True := by
  induction points with
  | nil => exact .of_some rfl htracks trivial
  | cons entry points ih =>
    obtain ⟨point, view⟩ := entry
    cases point with
    | origin => exact .of_some rfl ⟨rfl, ⟨[], T.genesis⟩, fun _ => rfl⟩ trivial
    | specific slot hash =>
    rw [handleFindIntersect]
    split
    · next hslot =>
      obtain ⟨b, hfind, -⟩ := Option.map_eq_some_iff.1 hslot
      have hb := mem_of_find?_eq_some hfind
      have hhash : b.hash = hash := by simpa using find?_some hfind
      exact .of_some rfl ⟨rfl, hhash ▸ (T.block_of_mem view.chain_eq hb).2, (nomatch ·)⟩ trivial
    · exact ih

/-! ## One event -/

/-- What is sent moves the client to the cursor, and misleads it unless `P` holds. -/
structure Keeps (W : Wire T) (h : Hash32) (after : Server × List ChainSyncMessage) (P : Prop) :
    Prop where
  tracks : ∀ h', followAll W h after.2 = some h' → Tracks T after.1.core h'
  sense : (∃ h', followAll W h after.2 = some h') ↔ P

variable {s : Server} {P : Prop}

theorem Keeps.silent (htracks : Tracks T s.core h) (hP : P) : Keeps W h (s, []) P := by
  refine ⟨fun h' hh => ?_, iff_of_true ⟨h, rfl⟩ hP⟩
  cases hh
  exact htracks

theorem Keeps.single (hmoves : Moves W h s.core msg P) : Keeps W h (s, [msg]) P := by
  have hall : followAll W h [msg] = follow W h msg := by
    rw [followAll, foldlM_cons]
    cases follow W h msg <;> rfl
  exact ⟨fun h' hh => hmoves.tracks h' (hall ▸ hh), by rw [hall]; exact hmoves.sense⟩

section
variable (htracks : Tracks T s.core h) {mode : Mode}
include htracks

/-- Sending what a serve attempt produced. -/
theorem keeps_reply {waiting : List ChainSyncMessage} (hwaiting : followAll W h waiting = some h)
    {result : Except ProtocolError (ServeCore × Option ChainSyncMessage)}
    (hserves : Serves W s.core h P result) : Keeps W h (s.reply (mode, waiting) result) P := by
  match result, hserves with
  | .error e, hP => exact .silent htracks hP
  | .ok (core', some msg), hmoves => exact .single hmoves
  | .ok (core', none), ⟨hcore, hP⟩ =>
    refine ⟨fun h' hh => ?_, iff_of_true ⟨h, hwaiting⟩ hP⟩
    cases hwaiting.symm.trans hh
    exact hcore ▸ htracks

variable (views : Views T)

theorem keeps_handleRequestNext : Keeps W h (s.handleRequestNext W.encode views)
      (s.core.NoticeSafe W.encode h views s.rollbacks.queue.getLast?) := by
  rw [handleRequestNext, ServeCore.NoticeSafe, drain]
  dsimp only
  cases s.rollbacks.queue.getLast?.filter s.core.beyond with
  | some rb => exact .single (moves_sendRollback views.tip.getTip rb)
  | none =>
    refine keeps_reply ?_ ?_ (serves_tryServeNextBlock htracks views)
    · exact htracks
    · rfl

theorem keeps_wakeOnRollback : Keeps W h (s.wakeOnRollback W.encode views)
      (if s.rollbacks.lagged then T.Names h ⟨views.check.getTip.slot, views.check.getTip.hash⟩
      else ∀ rb ∈ s.rollbacks.queue.head?, s.core.NoticeSafe W.encode h views (some rb)) := by
  rw [wakeOnRollback, recv]
  by_cases hlag : s.rollbacks.lagged = true
  · rw [if_pos hlag, if_pos hlag]
    exact .single (moves_sendRollback views.tip.getTip _)
  rw [if_neg hlag, if_neg hlag]
  cases hqueue : s.rollbacks.queue with
  | nil =>
    -- a closed channel and an empty one are both silent
    cases s.rollbacks.closed <;> exact .silent htracks (by simp)
  | cons rb queue =>
  have hhead : (∀ rb' ∈ (rb :: queue).head?, s.core.NoticeSafe W.encode h views (some rb')) ↔
      s.core.NoticeSafe W.encode h views (some rb) := by simp
  rw [hhead]
  refine keeps_reply ?_ ?_ (serves_rollbackOrServe htracks views (some rb))
  · exact htracks
  · rfl

theorem keeps_wakeOnAnnouncement : Keeps W h (s.wakeOnAnnouncement W.encode views)
      (if s.announcements.lagged then s.core.Settled W.encode views
      else s.announcements.queue ≠ [] →
        s.core.NoticeSafe W.encode h views s.rollbacks.queue.getLast?) := by
  rw [wakeOnAnnouncement, recv]
  by_cases hlag : s.announcements.lagged = true
  · rw [if_pos hlag, if_pos hlag]
    refine keeps_reply ?_ ?_ (serves_tryServeNextBlock htracks views)
    · exact htracks
    · rfl
  rw [if_neg hlag, if_neg hlag]
  cases hqueue : s.announcements.queue with
  | nil =>
    -- a closed channel and an empty one are both silent
    cases s.announcements.closed <;> exact .silent htracks (by simp)
  | cons wake queue =>
  rw [imp_iff_right (cons_ne_nil wake queue)]
  refine keeps_reply ?_ ?_ (serves_rollbackOrServe htracks views _)
  · exact htracks
  · rfl

/-- An event that is not looked at changes nothing. -/
theorem Keeps.guard {after : Server × List ChainSyncMessage} (hkeeps : Keeps W h after P) :
    Keeps W h (if s.mode = mode then after else (s, [])) (s.mode = mode → P) := by
  split
  · next hmode => rwa [imp_iff_right hmode]
  · next hmode => exact .silent htracks (absurd · hmode)

/-- An event moves the client to the cursor, and misleads it unless the event is safe. -/
theorem keeps_step (e : Event T) : Keeps W h (s.step W.encode e) (Safe W.encode s h e) := by
  cases e with
  | rollbackAnnounced rb dropped | blockAnnounced dropped | rollbacksClosed
  | announcementsClosed => exact .silent htracks trivial
  | findIntersect points tip =>
    rw [step]
    split
    · exact .single (moves_handleFindIntersect htracks tip.getTip points)
    · exact .silent htracks trivial
  | done =>
    rw [step]
    split
    · exact .silent htracks trivial
    · exact .silent htracks trivial
  | requestNext views => exact .guard htracks (keeps_handleRequestNext htracks views)
  | wakeRollback views => exact .guard htracks (keeps_wakeOnRollback htracks views)
  | wakeAnnouncement views => exact .guard htracks (keeps_wakeOnAnnouncement htracks views)
  | timeout views =>
    exact .guard htracks (keeps_reply htracks (by rfl) (serves_tryServeNextBlock htracks views))

end

/-! ## Runs -/

/-- From a server that tracks its client, the client can follow a run exactly when every event of
it is safe. -/
theorem legit_iff_of_tracks (W : Wire T) (events : List (Event T)) :
    ∀ {s : Server} {h : Hash32}, Tracks T s.core h →
      (Legit W s h events ↔ SafeRun W s h events) := by
  induction events with
  | nil => exact fun _ => iff_of_true rfl trivial
  | cons e events ih =>
    intro s h htracks
    have hkeeps : Keeps W h (s.step W.encode e) (Safe W.encode s h e) := keeps_step htracks e
    rw [Legit, clientRun, SafeRun, ← hkeeps.sense]
    cases hall : followAll W h (s.step W.encode e).2 with
    | none => simp
    | some h' =>
    rw [Option.bind_some]
    refine (ih (hkeeps.tracks h' hall)).trans ⟨fun hsafe => ⟨⟨h', rfl⟩, ?_⟩, fun hsafe => ?_⟩
    · rintro h'' hh
      cases hh
      exact hsafe
    · exact hsafe.2 h' rfl

/-- The client of a fresh server can follow a run of client messages, announcements, rollback
notices and chain changes exactly when every event of it is safe. -/
theorem legit_iff_safeRun (W : Wire T) (events : List (Event T)) :
    Legit W .new 0 events ↔ SafeRun W .new 0 events :=
  legit_iff_of_tracks W events ⟨rfl, ⟨[], T.genesis⟩, fun _ => rfl⟩

end

/-! ## Misled clients -/

/-- A chain of two blocks, and a fork of two blocks after the first. -/
def forkTree : BlockTree where
  chainTo h :=
    if h = 0 then some []
    else if h = 1 then some [⟨1, 10, 1, 0, [1]⟩]
    else if h = 2 then some [⟨1, 10, 1, 0, [1]⟩, ⟨2, 20, 2, 1, [2]⟩]
    else if h = 3 then some [⟨1, 10, 1, 0, [1]⟩, ⟨3, 15, 2, 1, [3]⟩]
    else if h = 4 then some [⟨1, 10, 1, 0, [1]⟩, ⟨3, 15, 2, 1, [3]⟩, ⟨4, 30, 3, 3, [4]⟩]
    else none
  genesis := rfl
  extends_parent := by
    intro h c hc hne
    rw [if_neg hne] at hc
    split_ifs at hc with h1 h2 h3 h4 <;> cases hc
    · exact ⟨[], _, rfl, h1.symm, rfl⟩
    · exact ⟨[_], _, rfl, h2.symm, rfl⟩
    · exact ⟨[_], _, rfl, h3.symm, rfl⟩
    · exact ⟨[_, _], _, rfl, h4.symm, rfl⟩

/-- A payload of one byte, the hash. -/
def byteWire : Wire forkTree where
  encode cbor := .ok cbor
  decode payload := payload.head?.map fun x => BitVec.ofNat 256 x.toNat
  decode_encode := by
    intro b payload hb hpayload
    cases hpayload
    rw [BlockTree.block, forkTree] at hb
    dsimp only at hb
    split_ifs at hb with h0 h1 h2 h3 h4 <;> cases hb <;> rfl

/-- The provider's view of the chain that ends in `tip`, with no ancestor within reach. -/
def viewOf (tip : Hash32) (chain : List Block) (h : forkTree.chainTo tip = some chain) :
    ChainView forkTree :=
  ⟨tip, chain, h, fun _ => none, (nomatch ·)⟩

def Views.all (view : ChainView forkTree) : Views forkTree := ⟨view, view, view⟩

def noBlocks : ChainView forkTree := viewOf 0 _ rfl

def oneBlock : ChainView forkTree := viewOf 1 _ rfl

def oldChain : ChainView forkTree := viewOf 2 _ rfl

def newChain : ChainView forkTree := viewOf 4 _ rfl

/-- The first of two notices is missed while the client waits at Origin. -/
def laggingRun : List (Event forkTree) :=
  [.findIntersect [(.origin, noBlocks)] noBlocks, .requestNext (.all noBlocks),
    .rollbackAnnounced ⟨0, 0⟩ 0, .rollbackAnnounced ⟨10, 1⟩ 1, .wakeRollback (.all oneBlock)]

/-- The client follows the old chain to its end. -/
def oldChainRun : List (Event forkTree) :=
  [.findIntersect [(.origin, oldChain)] oldChain, .requestNext (.all oldChain),
    .requestNext (.all oldChain)]

/-- A lagging receiver rolls the client back to a block that it has not been sent, and so does the
second of two switches between two requests; a switch between the check of the cursor and the lookup
makes the server send a block of the new chain on top of the old one. -/
theorem client_misled :
    ¬Legit byteWire .new 0 laggingRun ∧
      ¬Legit byteWire .new 0 (oldChainRun ++
        [.rollbackAnnounced ⟨10, 1⟩ 0, .rollbackAnnounced ⟨15, 3⟩ 0,
          .requestNext (.all newChain)]) ∧
      ¬Legit byteWire .new 0 (oldChainRun ++ [.requestNext ⟨oldChain, newChain, newChain⟩]) := by
  unfold Legit
  decide

end Dugite.ChainSync
