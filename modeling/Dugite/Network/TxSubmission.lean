import Dugite.Lib.FinMap
import Dugite.Lib.Runs
import Dugite.Primitives.Bytes

/-!
# Transaction submission

The TxSubmission2 server asks for transaction ids and bodies, and the client answers from its
mempool through `MempoolTxSource`. The server drives the session: it sends one request at a time and
waits for the answer. `Session.step` lets the client look at its mempool once and, if it has an
answer, lets the server react to it. What the mempool holds may be different at every look.

The server matches the bodies of a reply to the ids of its request by position. A `Session` also
remembers, for each body that was handed to `on_tx`, the id it was announced under.

Messages arrive as they were sent: their encoding is left out, and so are the logs, the metrics and
the cancellation of the client, which ends the session without an error. The limits of the server
are parameters, `Limits.standard` has its constants.
-/

namespace Dugite.TxSubmission

structure TxIdAndSize where
  eraId : Nat
  txId : Hash32
  /-- The size that the peer advertises, a `u32`. -/
  sizeInBytes : Nat
  deriving DecidableEq

inductive TxSubmissionMessage where
  | init
  | requestTxIds (blocking : Bool) (ackCount reqCount : Nat)
  | replyTxIds (ids : List TxIdAndSize)
  | requestTxs (ids : List (Nat × Hash32))
  | replyTxs (txs : List (Nat × Bytes))
  | done
  deriving DecidableEq

/-- The first four are the source's `BoundsExceeded`, one for each of its checks. -/
inductive ProtocolError where
  /-- "peer sent {} tx IDs but only {} were requested" -/
  | tooManyTxIds (sent requested : Nat)
  /-- "unacked count would reach {} (max {})" -/
  | unackedExceeded (count max : Nat)
  /-- "inflight tx IDs reached {} (max {})" -/
  | inflightExceeded (count max : Nat)
  /-- "delivered tx body is {} bytes but peer advertised {}" -/
  | bodyTooLarge (size advertised : Nat)
  | stateViolation (expected : String) (actual : TxSubmissionMessage)
  /-- "delivered tx body's canonical id blake2b_256(body) != attested txid {}" -/
  | integrityViolation (attested : Hash32)
  deriving DecidableEq

/-! ## The client -/

/-- What the mempool tells about one of its transactions. The bytes may be missing. -/
structure PooledTx where
  sizeBytes : Nat
  rawCbor : Option Bytes

/-- The mempool at one moment, as `MempoolQuerySource` shows it. A transaction is kept under its
canonical id, the hash of its body, which `canonicalId` finds in the bytes. -/
structure MempoolView (canonicalId : Bytes → Option Hash32) where
  order : List Hash32
  txs : FinMap Hash32 PooledTx
  keyed : ∀ hash tx cbor id, txs.lookup hash = some tx → tx.rawCbor = some cbor →
    canonicalId cbor = some id → id = hash

section Client
variable {canonicalId : Bytes → Option Hash32}

variable (view : MempoolView canonicalId)

def MempoolView.queryTxSize (hash : Hash32) : Option Nat := (view.txs.lookup hash).map (·.sizeBytes)

def MempoolView.queryTxCbor (hash : Hash32) : Option Bytes :=
  (view.txs.lookup hash).bind (·.rawCbor)

structure MempoolTxSource where
  outstanding : List Hash32
  everYielded : Finset Hash32

/-- The size of a transaction in its envelope, cut to a `u32`. -/
def wireSize (size : Nat) : Nat :=
  let bytesHeaderLen := if size < 24 then 1 else if size < 256 then 2 else 3
  (1 + 1 + 2 + bytesHeaderLen + size) % 2 ^ 32

/-- The loop of `get_tx_ids` over the hashes of the mempool. -/
def yieldNew (view : MempoolView canonicalId) (maxCount : Nat) :
    List Hash32 → MempoolTxSource → List TxIdAndSize → MempoolTxSource × List TxIdAndSize
  | [], source, result => (source, result)
  | hash :: hashes, source, result =>
    if result.length ≥ maxCount then (source, result)
    else if hash ∈ source.everYielded then yieldNew view maxCount hashes source result
    else
      match view.queryTxSize hash with
      | some size =>
        yieldNew view maxCount hashes
          ⟨source.outstanding ++ [hash], insert hash source.everYielded⟩
          (result ++ [⟨6, hash, wireSize size⟩])
      | none => yieldNew view maxCount hashes source result

def MempoolTxSource.getTxIds (source : MempoolTxSource) (view : MempoolView canonicalId)
    (ackCount maxCount : Nat) : MempoolTxSource × List TxIdAndSize :=
  yieldNew view maxCount view.order
    ⟨(source.outstanding.drop ackCount).filter fun h => (view.queryTxSize h).isSome,
      source.everYielded.filter fun h => (view.queryTxSize h).isSome⟩ []

def getTxs (ids : List (Nat × Hash32)) : List (Nat × Bytes) :=
  ids.filterMap fun id => (view.queryTxCbor id.2).map fun cbor => (id.1, cbor)

/-- The client looks at its mempool to answer a request. There is no answer yet if it has nothing to
announce and may wait; it is then `polling`, and has acknowledged already. -/
def answer (source : MempoolTxSource) (polling : Bool) (view : MempoolView canonicalId) :
    TxSubmissionMessage → Except ProtocolError (MempoolTxSource × Option TxSubmissionMessage)
  | .requestTxIds blocking ackCount reqCount =>
    let polled := source.getTxIds view (if polling then 0 else ackCount) reqCount
    if polled.2.isEmpty && blocking then .ok (polled.1, none)
    else .ok (polled.1, some (.replyTxIds polled.2))
  | .requestTxs ids => .ok (source, some (.replyTxs (getTxs view ids)))
  | other => .error (.stateViolation "MsgRequestTxIds or MsgRequestTxs" other)

end Client

/-! ## The server -/

structure Limits where
  (maxTxIdsPerRequest maxUnacked maxInflightTxIds : Nat)

def Limits.standard : Limits := ⟨10, 100, 1000⟩

/-- What the receiving node brings: its limits, the id that the decoders compute for the bytes of a
transaction (none if no era decodes them), and whether the validator and the mempool take the `n`th
body that they see. -/
structure Receiver where
  limits : Limits
  canonicalId : Bytes → Option Hash32
  admits : Nat → Bool

inductive TxAdmission where
  | accepted
  | rejected
  | convict

/-- The callback for a delivered body, with the id that the peer attested. -/
def Receiver.onTx (r : Receiver) (n : Nat) (txHash : Hash32) (txBytes : Bytes) : TxAdmission :=
  if txBytes.length > 16384 then .rejected
  else
    match r.canonicalId txBytes with
    | some hash =>
      if hash ≠ txHash then .convict else if r.admits n then .accepted else .rejected
    | none => .rejected

structure TxSubmissionStats where
  (txIdsReceived txsReceived txsAccepted txsRejected : Nat)
  deriving DecidableEq

/-- The message that the server waits for, with what it remembers of its request. -/
inductive Awaited where
  | init
  | txIds (blocking : Bool) (reqCount : Nat)
  | txs (toFetch : List TxIdAndSize)
  deriving DecidableEq

structure Server where
  unacked : List TxIdAndSize
  inflight : Finset Hash32
  stats : TxSubmissionStats
  awaited : Awaited

/-- What the server does with a message: the calls of `on_tx` in their order, and an error, the end
of the session, or its next request. -/
structure Reaction where
  calls : List (Hash32 × Bytes)
  next : Except ProtocolError (Option (Server × TxSubmissionMessage))

/-- The top of the server's loop: everything unacknowledged is acknowledged (at most `u16::MAX` at
once) and more ids are requested. -/
def Server.requestMore (limits : Limits) (server : Server) : Server × TxSubmissionMessage :=
  let ackCount := min server.unacked.length 65535
  let unacked := server.unacked.drop ackCount
  let blocking := unacked.isEmpty
  let remainingCapacity := limits.maxUnacked - unacked.length
  let reqCount := min (remainingCapacity % 65536) limits.maxTxIdsPerRequest
  ({ server with unacked, awaited := .txIds blocking reqCount },
    .requestTxIds blocking ackCount reqCount)

/-- The ids to fetch, those that are not in flight yet, and what is in flight then. -/
def track : List TxIdAndSize → Finset Hash32 → List TxIdAndSize × Finset Hash32
  | [], inflight => ([], inflight)
  | id :: ids, inflight =>
    if id.txId ∈ inflight then track ids inflight
    else
      let tracked := track ids (insert id.txId inflight)
      (id :: tracked.1, tracked.2)

def Server.onReplyTxIds (limits : Limits) (server : Server) (blocking : Bool) (reqCount : Nat)
    (ids : List TxIdAndSize) : Except ProtocolError (Option (Server × TxSubmissionMessage)) :=
  if ids.isEmpty && !blocking then .ok (some (server.requestMore limits))
  else if ids.length > reqCount then .error (.tooManyTxIds ids.length reqCount)
  else if server.unacked.length + ids.length > limits.maxUnacked then
    .error (.unackedExceeded (server.unacked.length + ids.length) limits.maxUnacked)
  else
    let tracked := track ids server.inflight
    let stats := { server.stats with txIdsReceived := server.stats.txIdsReceived + ids.length }
    let server := ⟨server.unacked ++ ids, tracked.2, stats, .txs tracked.1⟩
    if server.inflight.card > limits.maxInflightTxIds then
      .error (.inflightExceeded server.inflight.card limits.maxInflightTxIds)
    else if tracked.1.isEmpty then .ok (some (server.requestMore limits))
    else .ok (some (server, .requestTxs (tracked.1.map fun id => (id.eraId, id.txId))))

/-- Counts a verdict; a conviction ends the session. -/
def TxSubmissionStats.count (stats : TxSubmissionStats) (attested : Hash32) :
    TxAdmission → Except ProtocolError TxSubmissionStats
  | .accepted => .ok { stats with txsReceived := stats.txsReceived + 1,
                                  txsAccepted := stats.txsAccepted + 1 }
  | .rejected => .ok { stats with txsReceived := stats.txsReceived + 1,
                                  txsRejected := stats.txsRejected + 1 }
  | .convict => .error (.integrityViolation attested)

/-- The loop over the bodies of a reply. The `i`th body is attributed to the `i`th id that was
fetched, a body beyond them to the zero hash. -/
def Receiver.deliver (r : Receiver) : List TxIdAndSize → List Bytes → Finset Hash32 →
    TxSubmissionStats →
    List (Hash32 × Bytes) × Except ProtocolError (Finset Hash32 × TxSubmissionStats)
  | _, [], inflight, stats => ([], .ok (inflight, stats))
  | [], txBytes :: rest, inflight, stats =>
    match stats.count 0 (r.onTx stats.txsReceived 0 txBytes) with
    | .error e => ([(0, txBytes)], .error e)
    | .ok stats =>
      let delivered := r.deliver [] rest inflight stats
      ((0, txBytes) :: delivered.1, delivered.2)
  | id :: toFetch, txBytes :: rest, inflight, stats =>
    if txBytes.length > id.sizeInBytes then
      ([], .error (.bodyTooLarge txBytes.length id.sizeInBytes))
    else
      match stats.count id.txId (r.onTx stats.txsReceived id.txId txBytes) with
      | .error e => ([(id.txId, txBytes)], .error e)
      | .ok stats =>
        let delivered := r.deliver toFetch rest (inflight.erase id.txId) stats
        ((id.txId, txBytes) :: delivered.1, delivered.2)

def Server.onReplyTxs (r : Receiver) (server : Server) (toFetch : List TxIdAndSize)
    (txs : List (Nat × Bytes)) : Reaction :=
  let delivered := r.deliver toFetch (txs.map (·.2)) server.inflight server.stats
  ⟨delivered.1, delivered.2.map fun result =>
    some ({ server with inflight := result.1, stats := result.2 }.requestMore r.limits)⟩

def Server.receive (r : Receiver) (server : Server) (msg : TxSubmissionMessage) : Reaction :=
  match server.awaited, msg with
  | .init, .init => ⟨[], .ok (some (server.requestMore r.limits))⟩
  | .init, other => ⟨[], .error (.stateViolation "MsgInit" other)⟩
  | .txIds blocking reqCount, .replyTxIds ids =>
    ⟨[], server.onReplyTxIds r.limits blocking reqCount ids⟩
  | .txIds _ _, .done => ⟨[], .ok none⟩
  | .txIds _ _, other => ⟨[], .error (.stateViolation "MsgReplyTxIds or MsgDone" other)⟩
  | .txs toFetch, .replyTxs txs => server.onReplyTxs r toFetch txs
  | .txs _, other => ⟨[], .error (.stateViolation "MsgReplyTxs" other)⟩

/-! ## Sessions -/

inductive Ending where
  | done
  | violation (e : ProtocolError)
  deriving DecidableEq

structure Session where
  source : MempoolTxSource
  /-- The client waits for something to announce, in answer to a blocking request. -/
  polling : Bool
  /-- The request that the client has not answered yet. -/
  request : TxSubmissionMessage
  server : Server
  ended : Option Ending
  /-- For each body that was handed to `on_tx`, the id it was attributed to and the id it was
  announced under. -/
  handed : List (Hash32 × Hash32)

/-- The ids whose bodies `getTxs` sends, in the order of the reply. -/
def sentIds {canonicalId : Bytes → Option Hash32} (view : MempoolView canonicalId) :
    TxSubmissionMessage → List Hash32
  | .requestTxs ids => (ids.map (·.2)).filter fun hash => (view.queryTxCbor hash).isSome
  | _ => []

section
variable (r : Receiver)

variable (s : Session)

/-- The server reacts to an answer; `origins` are the ids of the bodies in it. -/
def Session.react (origins : List Hash32) (reply : TxSubmissionMessage) : Session :=
  let reaction := s.server.receive r reply
  let s := { s with handed := s.handed ++ (reaction.calls.map Prod.fst).zip origins }
  match reaction.next with
  | .error e => { s with ended := some (.violation e) }
  | .ok none => { s with ended := some .done }
  | .ok (some (server, request)) => { s with polling := false, request, server }

/-- The client fails, waits or answers. -/
def Session.proceed (origins : List Hash32) :
    Except ProtocolError (MempoolTxSource × Option TxSubmissionMessage) → Session
  | .error e => { s with ended := some (.violation e) }
  | .ok (source, none) => { s with source, polling := true }
  | .ok (source, some reply) => { s with source }.react r origins reply

/-- The client looks at its mempool once. -/
def Session.step (view : MempoolView r.canonicalId) : Session :=
  match s.ended with
  | some _ => s
  | none => s.proceed r (sentIds view s.request) (answer s.source s.polling view s.request)

/-- The client has sent `MsgInit` and the server has received it. -/
def Session.start : Session :=
  let server : Server := ⟨[], ∅, ⟨0, 0, 0, 0⟩, .init⟩
  Session.react r ⟨⟨[], ∅⟩, false, .init, server, none, []⟩ [] .init

def Session.run (views : List (MempoolView r.canonicalId)) : Session :=
  views.foldl (Session.step r) s

end

end Dugite.TxSubmission
