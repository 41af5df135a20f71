import Dugite.Primitives.Header

/-!
# The ChainSync server

`ServeCore` is the serve loop that the node-to-node and node-to-client servers share. It keeps a
cursor, the last point served to the peer, and moves it when it sends a block or a rollback. What it
reads from outside is in the events of `step`: the client's messages, the two broadcast channels
(a channel that overflows drops its oldest values, and the receiver is told that it has lagged), the
timer, and the chain as the block provider sees it.

The provider takes the database lock anew for each call, so the calls of one event may see different
chains (`Views`). A view is any chain that reaches genesis, together with an answer of
`find_chain_ancestor` for each block: the nearest ancestor on the chain, or nothing when none is
within reach. Logging, the draw of the timeout and the byte format of the messages are left out.
-/

namespace Dugite.ChainSync

/-- A block as the provider hands it out. -/
structure Block where
  hash : Hash32
  slot : Nat
  blockNumber : Nat
  prevHash : Hash32
  cbor : Bytes
  deriving DecidableEq

/-- The blocks whose ancestry reaches genesis, each with the chain that ends in it. The hash of
genesis is zero. -/
structure BlockTree where
  chainTo : Hash32 → Option (List Block)
  genesis : chainTo 0 = some []
  extends_parent : ∀ {h : Hash32} {c : List Block}, chainTo h = some c → h ≠ 0 →
    ∃ parent b, c = parent ++ [b] ∧ b.hash = h ∧ chainTo b.prevHash = some parent

structure TipInfo where
  slot : Nat
  hash : Hash32
  blockNumber : Nat
  deriving DecidableEq

/-- The served chain at one call of the provider. -/
structure ChainView (T : BlockTree) where
  tip : Hash32
  chain : List Block
  chain_eq : T.chainTo tip = some chain
  findChainAncestor : Hash32 → Option Block
  ancestor_mem : ∀ {h : Hash32} {a : Block}, findChainAncestor h = some a →
    a ∈ chain ∧ ∃ c, T.chainTo h = some c ∧ a ∈ c

namespace ChainView

variable {T : BlockTree} (view : ChainView T)

def getTip : TipInfo := view.chain.getLast?.elim ⟨0, 0, 0⟩ fun b => ⟨b.slot, b.hash, b.blockNumber⟩

def isOnChain (hash : Hash32) : Bool := view.chain.any fun b => b.hash = hash

def canonicalPointSlot (hash : Hash32) : Option Nat :=
  (view.chain.find? fun b => b.hash = hash).map (·.slot)

def getNextBlockAfterSlot (afterSlot : Nat) : Option Block :=
  view.chain.find? fun b => afterSlot < b.slot

def getBlockAtOrAfterSlot (slot : Nat) : Option Block := view.chain.find? fun b => slot ≤ b.slot

/-- The successor of a block of the chain. For a block that is not on the chain the lookup falls
back to the slot. -/
def getNextBlockAfterPoint (slot : Nat) (hash : Hash32) : Option Block :=
  if view.isOnChain hash then
    (view.chain.dropWhile fun b => b.hash ≠ hash).tail.head?
  else view.getNextBlockAfterSlot slot

end ChainView

structure RollbackAnnouncement where
  slot : Nat
  hash : Hash32
  deriving DecidableEq

/-- What the server sends. -/
inductive ChainSyncMessage where
  | rollForward (header : Bytes) (tip : TipInfo)
  | rollBackward (point : Point) (tip : TipInfo)
  | awaitReply
  | intersectFound (point : Point) (tip : TipInfo)
  | intersectNotFound (tip : TipInfo)
  deriving DecidableEq

/-! ## Broadcast receivers -/

/-- The receiving end of a broadcast channel. -/
structure Receiver (α : Type) where
  queue : List α
  /-- Values have been dropped since the last receive. -/
  lagged : Bool
  closed : Bool

inductive Received (α : Type) where
  | value (a : α)
  | lagged
  | closed

namespace Receiver

variable {α : Type} (rx : Receiver α)

def new : Receiver α := ⟨[], false, false⟩

/-- A value arrives and the oldest ones are dropped to make room. -/
def push (a : α) (dropped : Nat) : Receiver α :=
  { rx with queue := (rx.queue ++ [a]).drop dropped, lagged := rx.lagged || dropped ≠ 0 }

/-- What a receive that is ready returns. -/
def recv : Option (Received α × Receiver α) :=
  if rx.lagged then some (.lagged, { rx with lagged := false })
  else match rx.queue with
    | a :: queue => some (.value a, { rx with queue })
    | [] => if rx.closed then some (.closed, rx) else none

/-- Receive until nothing is left; the newest value is kept. -/
def drain : Option α × Receiver α := (rx.queue.getLast?, { rx with queue := [], lagged := false })

end Receiver

/-! ## The serve loop -/

/-- Why the connection ends. -/
inductive ProtocolError where
  | payload (reason : String)

/-- The chains that the provider calls of one event see: the first call, the lookup that follows it
and the tip of the reply. -/
structure Views (T : BlockTree) where
  (check lookup tip : ChainView T)

structure ServeCore where
  cursorSlot : Nat
  cursorHash : Hash32
  cursorInitialized : Bool
  /-- Nothing has been served yet, and a block at slot 0 is still to come. -/
  cursorAtOrigin : Bool

namespace ServeCore

variable (core : ServeCore)

def new : ServeCore := ⟨0, 0, false, false⟩

/-- The peer has been sent past the point of the announcement. -/
def beyond (rb : RollbackAnnouncement) : Bool :=
  core.cursorSlot > rb.slot || (core.cursorSlot = rb.slot && core.cursorHash ≠ rb.hash)

def sendRollback (tip : TipInfo) (rb : RollbackAnnouncement) : ServeCore × ChainSyncMessage :=
  let point := if rb.slot = 0 ∧ rb.hash = 0 then Point.origin else .specific rb.slot rb.hash
  ({ core with
      cursorSlot := rb.slot
      cursorHash := rb.hash
      cursorAtOrigin := point = .origin },
    .rollBackward point tip)

variable {T : BlockTree}

/-- Where to rewind a cursor that is no longer on the chain: the nearest ancestor, else Origin. -/
def rewindPoint (view : ChainView T) : RollbackAnnouncement :=
  match view.findChainAncestor core.cursorHash with
  | some a => ⟨a.slot, a.hash⟩
  | none => ⟨0, 0⟩

/-- The block to serve at the cursor. -/
def nextBlock (view : ChainView T) : Option Block :=
  if core.cursorAtOrigin then view.getBlockAtOrAfterSlot 0
  else view.getNextBlockAfterPoint core.cursorSlot core.cursorHash

section
variable (encode : Bytes → Except ProtocolError Bytes) (views : Views T)

def tryServeNextBlock : Except ProtocolError (ServeCore × Option ChainSyncMessage) :=
  if !core.cursorAtOrigin && !views.check.isOnChain core.cursorHash then
    let (core, msg) := core.sendRollback views.tip.getTip (core.rewindPoint views.lookup)
    .ok (core, some msg)
  else
    match core.nextBlock views.lookup with
    | none => .ok (core, none)
    | some b =>
      match encode b.cbor with
      | .error e => .error e
      | .ok payload =>
        .ok ({ core with cursorSlot := b.slot, cursorHash := b.hash, cursorAtOrigin := false },
          some (.rollForward payload views.tip.getTip))

/-- A rollback notice: roll the peer back if it has been sent past the point, else serve. -/
def rollbackOrServe (notice : Option RollbackAnnouncement) :
    Except ProtocolError (ServeCore × Option ChainSyncMessage) :=
  match notice.filter core.beyond with
  | some rb =>
    let (core, msg) := core.sendRollback views.tip.getTip rb
    .ok (core, some msg)
  | none => core.tryServeNextBlock encode views

end

/-- The first of the client's points that is on the chain with the slot it claims becomes the
cursor. Each point comes with the chain that its lookup sees. -/
def handleFindIntersect (tip : TipInfo) : List (Point × ChainView T) → ServeCore × ChainSyncMessage
  | [] => (core, .intersectNotFound tip)
  | (.origin, _) :: _ => (⟨0, 0, true, true⟩, .intersectFound .origin tip)
  | (.specific slot hash, view) :: points =>
    if view.canonicalPointSlot hash = some slot then
      (⟨slot, hash, true, false⟩, .intersectFound (.specific slot hash) tip)
    else handleFindIntersect tip points

end ServeCore

/-- Who has agency: the client, the server after `MsgAwaitReply`, or nobody. -/
inductive Mode where
  | idle
  | mustReply
  | closed
  deriving DecidableEq

structure Server where
  core : ServeCore
  mode : Mode
  rollbacks : Receiver RollbackAnnouncement
  announcements : Receiver Unit

inductive Event (T : BlockTree) where
  | rollbackAnnounced (rb : RollbackAnnouncement) (dropped : Nat)
  | blockAnnounced (dropped : Nat)
  | rollbacksClosed
  | announcementsClosed
  | findIntersect (points : List (Point × ChainView T)) (tip : ChainView T)
  | requestNext (views : Views T)
  | done
  /-- A receive on the rollback channel is ready. -/
  | wakeRollback (views : Views T)
  | wakeAnnouncement (views : Views T)
  | timeout (views : Views T)

namespace Server

def new : Server := ⟨.new, .idle, .new, .new⟩

variable (s : Server) {T : BlockTree} (encode : Bytes → Except ProtocolError Bytes)

/-- Send what a serve attempt produced; `waiting` is where the server goes, and what it sends, when
there was nothing to serve. -/
def reply (waiting : Mode × List ChainSyncMessage) :
    Except ProtocolError (ServeCore × Option ChainSyncMessage) → Server × List ChainSyncMessage
  | .error _ => ({ s with mode := .closed }, [])
  | .ok (core, some msg) => ({ s with core, mode := .idle }, [msg])
  | .ok (core, none) => ({ s with core, mode := waiting.1 }, waiting.2)

variable (views : Views T)

def handleRequestNext : Server × List ChainSyncMessage :=
  let (latest, rollbacks) := s.rollbacks.drain
  match latest.filter s.core.beyond with
  | some rb =>
    let (core, msg) := s.core.sendRollback views.tip.getTip rb
    ({ s with core, rollbacks }, [msg])
  | none =>
    { s with rollbacks, announcements := s.announcements.drain.2 }.reply
      (.mustReply, [.awaitReply]) (s.core.tryServeNextBlock encode views)

/-- The rollback arm of the wait after `MsgAwaitReply`. -/
def wakeOnRollback : Server × List ChainSyncMessage :=
  match s.rollbacks.recv with
  | none => (s, [])
  | some (.value rb, rollbacks) =>
    { s with rollbacks }.reply (.mustReply, []) (s.core.rollbackOrServe encode views (some rb))
  | some (.lagged, rollbacks) =>
    -- the missed notices are answered with a rollback to the tip
    let tip := views.check.getTip
    let (core, msg) := s.core.sendRollback views.tip.getTip ⟨tip.slot, tip.hash⟩
    ({ s with core, rollbacks, mode := .idle }, [msg])
  | some (.closed, _) => ({ s with mode := .idle }, [])

/-- The announcement arm: the announcement only wakes the server. -/
def wakeOnAnnouncement : Server × List ChainSyncMessage :=
  match s.announcements.recv with
  | none => (s, [])
  | some (.value _, announcements) =>
    let (latest, rollbacks) := s.rollbacks.drain
    { s with rollbacks, announcements }.reply (.mustReply, [])
      (s.core.rollbackOrServe encode views latest)
  | some (.lagged, announcements) =>
    { s with announcements }.reply (.mustReply, []) (s.core.tryServeNextBlock encode views)
  | some (.closed, _) => ({ s with mode := .idle }, [])

/-- One event. A client message waits in its channel while the server has agency. -/
def step : Event T → Server × List ChainSyncMessage
  | .rollbackAnnounced rb dropped => ({ s with rollbacks := s.rollbacks.push rb dropped }, [])
  | .blockAnnounced dropped => ({ s with announcements := s.announcements.push () dropped }, [])
  | .rollbacksClosed => ({ s with rollbacks := { s.rollbacks with closed := true } }, [])
  | .announcementsClosed =>
    ({ s with announcements := { s.announcements with closed := true } }, [])
  | .findIntersect points tip =>
    if s.mode = .idle then
      let (core, msg) := s.core.handleFindIntersect tip.getTip points
      ({ s with core }, [msg])
    else (s, [])
  | .requestNext views => if s.mode = .idle then s.handleRequestNext encode views else (s, [])
  | .done => if s.mode = .idle then ({ s with mode := .closed }, []) else (s, [])
  | .wakeRollback views => if s.mode = .mustReply then s.wakeOnRollback encode views else (s, [])
  | .wakeAnnouncement views =>
    if s.mode = .mustReply then s.wakeOnAnnouncement encode views else (s, [])
  | .timeout views =>
    if s.mode = .mustReply then
      s.reply (.mustReply, []) (s.core.tryServeNextBlock encode views)
    else (s, [])

end Server

end Dugite.ChainSync
