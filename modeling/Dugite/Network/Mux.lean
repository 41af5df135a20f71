import Dugite.Lib.Listing
import Dugite.Network.CborBoundary

/-!
# The multiplexer

One direction of a connection: the egress task of one node cuts the messages of all its channels
into segments (SDUs) and writes them to the bearer, the ingress task of the other node takes them
from the bearer and gives each to its channel, where they are put together again. The other
direction is a second copy of this.

The tasks run concurrently. A `Link` is the state of all of them and an `Event` is one step of one:
the egress loop is cut at every look into its queue of new messages and after every segment, the
ingress loop at every read, and a call of `recv` or `try_recv` at every chunk. Any list of events is
a schedule. A step that would block leaves the state as it is.

The bearer hands on what is written to it, byte by byte and in order. The log, the end of the
connection and the re-subscription of a channel are left out.
-/

namespace Dugite.Mux

inductive Direction where
  | initiatorDir
  | responderDir
  deriving DecidableEq

def Direction.flip : Direction → Direction
  | .initiatorDir => .responderDir
  | .responderDir => .initiatorDir

/-- The protocol number, a `u16`, and the direction. -/
abbrev ChannelKey := Nat × Direction

/-- The other node's name for a channel. -/
def flipKey (key : ChannelKey) : ChannelKey := (key.1, key.2.flip)

/-! ## Segments -/

structure SduHeader where
  timestamp : Nat
  protocolId : Nat
  direction : Direction
  payloadLength : Nat
  deriving DecidableEq

def headerSize : Nat := 8

def encodeHeader (header : SduHeader) : Bytes :=
  let dirBit := match header.direction with
    | .initiatorDir => 0
    | .responderDir => 0x8000
  beBytes 4 header.timestamp ++ beBytes 2 (dirBit ||| (header.protocolId &&& 0x7FFF)) ++
    beBytes 2 header.payloadLength

def decodeHeader (buf : Bytes) : SduHeader :=
  let protocolAndDir := ofBeBytes ((buf.drop 4).take 2)
  { timestamp := ofBeBytes (buf.take 4)
    protocolId := protocolAndDir &&& 0x7FFF
    direction := if protocolAndDir &&& 0x8000 ≠ 0 then .responderDir else .initiatorDir
    payloadLength := ofBeBytes ((buf.drop 6).take 2) }

/-! ## Egress -/

structure MuxConfig where
  sduSize : Nat
  batchSize : Nat
  /-- How many messages fit in the queue between the channels and the egress task. -/
  egressCapacity : Nat
  maxEgressBytesPerChannel : Nat
  maxSdusPerBatch : Nat
  /-- How many chunks fit in the queue between the ingress task and a channel. -/
  ingressCapacity : Nat

def MuxConfig.standard (sduSize batchSize : Nat) : MuxConfig :=
  ⟨sduSize, batchSize, 32 * 8, 8 * 1024 * 1024, 100, 4096⟩

/-- Where the egress loop is: at its top, among the channels it serves in this round, in the drain
after a round (with the number of messages taken), waiting for a message, or in the drain after
that. -/
inductive EgressPoint where
  | top
  | serve (keys : List ChannelKey) (madeProgress : Bool)
  | drain (sduCount : Nat)
  | wait
  | drainAll

structure Egress where
  rx : List (ChannelKey × Bytes)
  queues : FinMap ChannelKey (List Bytes)
  channelBytes : FinMap ChannelKey Nat
  pending : Option (ChannelKey × Bytes)
  batchBuf : Bytes
  point : EgressPoint

def Egress.queue (e : Egress) (key : ChannelKey) : List Bytes := (e.queues.lookup key).getD []

def Egress.bytesAt (e : Egress) (key : ChannelKey) : Nat := (e.channelBytes.lookup key).getD 0

variable (cfg : MuxConfig)

/-- Enqueues a message, or holds it as `pending` if its channel is at the cap. -/
def Egress.enqueueMessage (e : Egress) (msg : ChannelKey × Bytes) : Egress :=
  let current := e.bytesAt msg.1
  if current > 0 ∧ current + msg.2.length > cfg.maxEgressBytesPerChannel then
    { e with pending := some msg }
  else
    { e with
      channelBytes := e.channelBytes.insert msg.1 (current + msg.2.length)
      queues := e.queues.insert msg.1 (e.queue msg.1 ++ [msg.2])
      pending := none }

/-- One segment of the message at the front of a channel's queue goes to the batch; the rest of the
message goes back to the front. A full batch is written. -/
def Egress.serveFront (timestamp : Nat) (e : Egress) (key : ChannelKey)
    (keys : List ChannelKey) (data : Bytes) (queue : List Bytes) : Egress × Bytes :=
  let chunkLen := min data.length cfg.sduSize
  let remainder := data.drop chunkLen
  let header : SduHeader := ⟨timestamp, key.1, key.2, chunkLen % 2 ^ 16⟩
  let batchBuf := e.batchBuf ++ (encodeHeader header ++ data.take chunkLen)
  let bytes := e.bytesAt key - data.length
  let e : Egress :=
    if chunkLen < data.length then
      { e with
        queues := e.queues.insert key (remainder :: queue)
        channelBytes := e.channelBytes.insert key (bytes + remainder.length) }
    else
      { e with
        queues := e.queues.insert key queue
        channelBytes := e.channelBytes.insert key bytes }
  let e := { e with point := .serve keys true }
  if batchBuf.length ≥ cfg.batchSize then ({ e with batchBuf := [] }, batchBuf)
  else ({ e with batchBuf }, [])

/-- Empty queues and their counters are dropped, the batch is gone, and the held message is taken
out. -/
def Egress.kept (e : Egress) : Egress :=
  { e with
    queues := e.queues.retain fun _ queue => !queue.isEmpty
    channelBytes := e.channelBytes.retain fun key _ => e.queues.lookup key ≠ some []
    batchBuf := []
    pending := none }

/-- The message that was held is tried again. -/
def Egress.retried (e : Egress) : Egress :=
  match e.pending with
  | some msg => e.kept.enqueueMessage cfg msg
  | none => e.kept

/-- Where the loop goes on after a round. -/
def afterRound {α : Type} : Bool → Option α → EgressPoint
  | true, none => .drain 0
  | true, some _ => .top
  | false, some _ => .top
  | false, none => .wait

section
variable (cfg : MuxConfig) (e : Egress)

/-- The end of a round, which writes the batch. -/
def Egress.endRound (madeProgress : Bool) : Egress × Bytes :=
  let retried := e.retried cfg
  ({ retried with point := afterRound madeProgress retried.pending }, e.batchBuf)

/-- A new message is taken, and the loop goes on at `point`. -/
def Egress.take (msg : ChannelKey × Bytes)
    (rx : List (ChannelKey × Bytes)) (point : EgressPoint) : Egress :=
  { { e with rx }.enqueueMessage cfg msg with point }

/-- One pass of a drain, which ends if a message is held or there is no new one. -/
def Egress.drainNext (point : EgressPoint) : Egress :=
  match e.pending, e.rx with
  | none, msg :: rx => e.take cfg msg rx point
  | _, _ => { e with point := .top }

end

variable (cfg : MuxConfig)

/-- One step of the egress loop, with the bytes that it writes. `order` is the order in which the
hash table lists its keys, `timestamp` the clock. -/
def Egress.step (order : Listing.Enumeration ChannelKey) (timestamp : Nat)
    (e : Egress) : Egress × Bytes :=
  match e.point with
  | .top => ({ e with point := .serve (order.list e.queues.keys) false }, [])
  | .serve [] madeProgress => e.endRound cfg madeProgress
  | .serve (key :: keys) madeProgress =>
    match e.queue key with
    | [] => ({ e with point := .serve keys madeProgress }, [])
    | data :: queue => e.serveFront cfg timestamp key keys data queue
  | .drain sduCount =>
    (e.drainNext cfg
      (if sduCount + 1 ≥ cfg.maxSdusPerBatch then .top else .drain (sduCount + 1)), [])
  | .wait =>
    match e.rx with
    | [] => (e, [])
    | msg :: rx => (e.take cfg msg rx .drainAll, [])
  | .drainAll => (e.drainNext cfg .drainAll, [])

/-! ## Ingress and channels -/

inductive MuxError where
  | invalidHeader (protocolId payloadLen : Nat)
  | unknownProtocol (protocolId : Nat)
  | ingressQueueOverrun (protocolId bytes limit : Nat)
  | sduReadTimeout
  deriving DecidableEq

/-- Where the ingress loop is: before a header, between a header and its payload, or ended. -/
inductive IngressPoint where
  | header
  | payload (header : SduHeader)
  | failed (e : MuxError)
  deriving DecidableEq

/-- An ingress route and the receiving half of its channel: the chunks that were delivered and not
taken yet, their bytes, the bytes that were taken and not returned yet, and what the calls of `recv`
and `try_recv` have returned. -/
structure Port where
  limit : Nat
  inbox : List Bytes
  bytesInFlight : Nat
  reassemblyBuf : Bytes
  returned : List (Except MuxError Bytes)

def Port.new (limit : Nat) : Port := ⟨limit, [], 0, [], []⟩

/-- The messages among what was returned. -/
def Port.received (p : Port) : List Bytes := p.returned.filterMap Except.toOption

/-- A chunk goes from the queue to the buffer. The call fails if the buffer is over the limit. -/
def Port.takeChunk (protocolId : Nat) (p : Port) (chunk : Bytes) (inbox : List Bytes) : Port :=
  let reassemblyBuf := p.reassemblyBuf ++ chunk
  { p with
    inbox
    bytesInFlight := p.bytesInFlight - chunk.length
    reassemblyBuf
    returned :=
      if reassemblyBuf.length > p.limit then
        p.returned ++ [.error (.ingressQueueOverrun protocolId reassemblyBuf.length p.limit)]
      else p.returned }

def Port.returnMessage (p : Port) (boundary : Nat) : Port :=
  { p with
    reassemblyBuf := p.reassemblyBuf.drop boundary
    returned := p.returned ++ [.ok (p.reassemblyBuf.take boundary)] }

variable (dec : CborDecoder)

/-- One pass of the loop of `recv`: a message if there is one, else a chunk. -/
def Port.recv (protocolId : Nat) (p : Port) : Port :=
  match tryDecodeCborBoundary dec p.reassemblyBuf, p.inbox with
  | some boundary, _ => p.returnMessage boundary
  | none, chunk :: inbox => p.takeChunk protocolId chunk inbox
  | none, [] => p

/-- One pass of `try_recv`: chunks as long as there are any, then a message. -/
def Port.tryRecv (protocolId : Nat) (p : Port) : Port :=
  match p.inbox, tryDecodeCborBoundary dec p.reassemblyBuf with
  | chunk :: inbox, _ => p.takeChunk protocolId chunk inbox
  | [], some boundary => p.returnMessage boundary
  | [], none => p

/-- A payload goes to its route. -/
def Port.deliver (protocolId : Nat) (p : Port) (payload : Bytes) : Except MuxError Port :=
  if payload.isEmpty then .ok p
  else
    let newTotal := p.bytesInFlight + payload.length
    if newTotal > p.limit ∨ p.inbox.length ≥ cfg.ingressCapacity then
      .error (.ingressQueueOverrun protocolId newTotal p.limit)
    else .ok { p with inbox := p.inbox ++ [payload], bytesInFlight := newTotal }

/-! ## The connection -/

structure Link where
  /-- The messages that were sent, in the order in which they entered the queue. -/
  sent : List (ChannelKey × Bytes)
  egress : Egress
  /-- The bytes that were written and not read yet. -/
  wire : Bytes
  ingress : IngressPoint
  ports : FinMap ChannelKey Port

inductive Event where
  | send (key : ChannelKey) (msg : Bytes)
  | egress (order : Listing.Enumeration ChannelKey) (timestamp : Nat)
  | ingress
  | sduReadTimeout
  | recv (key : ChannelKey)
  | tryRecv (key : ChannelKey)

/-- One step of the ingress loop. It blocks until the bytes it asks for are there. -/
def Link.ingressStep (l : Link) : Link :=
  match l.ingress with
  | .header =>
    if l.wire.length < headerSize then l
    else
      let header := decodeHeader (l.wire.take headerSize)
      { l with
        wire := l.wire.drop headerSize
        ingress :=
          if header.protocolId = 1 then
            .failed (.invalidHeader header.protocolId header.payloadLength)
          else .payload header }
  | .payload header =>
    if l.wire.length < header.payloadLength then l
    else
      let payload := l.wire.take header.payloadLength
      let key := (header.protocolId, header.direction.flip)
      let l := { l with wire := l.wire.drop header.payloadLength }
      match l.ports.lookup key with
      | none => { l with ingress := .failed (.unknownProtocol header.protocolId) }
      | some port =>
        match port.deliver cfg header.protocolId payload with
        | .ok port => { l with ingress := .header, ports := l.ports.insert key port }
        | .error e => { l with ingress := .failed e }
  | .failed _ => l

/-- A call on a channel. -/
def Link.onPort (l : Link) (key : ChannelKey) (call : Nat → Port → Port) : Link :=
  match l.ports.lookup key with
  | some port => { l with ports := l.ports.insert key (call key.1 port) }
  | none => l

def Link.step (cfg : MuxConfig) (dec : CborDecoder) (l : Link) : Event → Link
  | .send key msg =>
    if l.egress.rx.length < cfg.egressCapacity then
      { l with
        sent := l.sent ++ [(key, msg)]
        egress := { l.egress with rx := l.egress.rx ++ [(key, msg)] } }
    else l
  | .egress order timestamp =>
    let stepped := l.egress.step cfg order timestamp
    { l with egress := stepped.1, wire := l.wire ++ stepped.2 }
  | .ingress => l.ingressStep cfg
  | .sduReadTimeout =>
    match l.ingress with
    | .payload header =>
      if header.payloadLength > 0 then { l with ingress := .failed .sduReadTimeout } else l
    | _ => l
  | .recv key => l.onPort key (Port.recv dec)
  | .tryRecv key => l.onPort key (Port.tryRecv dec)

/-- A new connection on whose far side the given channels are subscribed, each with its limit. -/
def Link.start (limits : FinMap ChannelKey Nat) : Link :=
  { sent := []
    egress := ⟨[], ∅, ∅, none, [], .top⟩
    wire := []
    ingress := .header
    ports := limits.mapValues Port.new }

def Link.run (l : Link) (events : List Event) : Link := events.foldl (Link.step cfg dec) l

end Dugite.Mux
