import Dugite.Network.Mux
import Mathlib.Data.Nat.Bitwise

/-!
# Delivery through the multiplexer

For each channel, what was sent is, in this order: what `recv` has returned, what is in the buffer
and the queue of the channel, what is on the wire and in the batch, the rest of the message that is
being sent, and the messages that wait. Every step of every task moves bytes along this line and
keeps them in order, whatever the other channels do. `Port.Holds` and `Link.Invariant` say so.

The detector then finds in the buffer the messages that were sent, one after the other.
-/

namespace Dugite.Mux

open Framing FinMap List Egress Port Option Nat

/-! ## Headers -/

@[simp] theorem length_encodeHeader (h : SduHeader) : (encodeHeader h).length = headerSize := by
  simp [encodeHeader, headerSize]

theorem protocolId_and {id : Nat} (h : id < 2 ^ 15) : id &&& 0x7FFF = id := by
  rw [show (0x7FFF : Nat) = 2 ^ 15 - 1 from rfl, and_two_pow_sub_one_eq_mod, mod_eq_of_lt h]

/-- A header comes back from its eight bytes. -/
theorem decodeHeader_encodeHeader {h : SduHeader} (hid : h.protocolId < 2 ^ 15)
    (hlength : h.payloadLength < 2 ^ 16) :
    decodeHeader (encodeHeader h) = { h with timestamp := h.timestamp % 2 ^ 32 } := by
  obtain ⟨timestamp, id, direction, length⟩ := h
  have hlength' : length % 256 ^ 2 = length := mod_eq_of_lt hlength
  have hfields : ∀ word < 2 ^ 16,
      decodeHeader (beBytes 4 timestamp ++ beBytes 2 word ++ beBytes 2 length) =
        { timestamp := timestamp % 2 ^ 32
          protocolId := word % 2 ^ 15
          direction := if word / 2 ^ 15 % 2 = 1 then .responderDir else .initiatorDir
          payloadLength := length } := by
    intro word hlt
    have htime : (beBytes 4 timestamp ++ beBytes 2 word ++ beBytes 2 length).take 4 =
        beBytes 4 timestamp := by
      rw [append_assoc]
      exact take_left' (beBytes_length 4 timestamp)
    have hword : ((beBytes 4 timestamp ++ beBytes 2 word ++ beBytes 2 length).drop 4).take 2 =
        beBytes 2 word := by
      rw [append_assoc, drop_left' (beBytes_length 4 timestamp)]
      exact take_left' (beBytes_length 2 word)
    have hrest : ((beBytes 4 timestamp ++ beBytes 2 word ++ beBytes 2 length).drop 6).take 2 =
        beBytes 2 length := by
      rw [drop_left' (by simp)]
      exact take_of_length_le (by simp)
    have hlow : word &&& 0x7FFF = word % 2 ^ 15 := and_two_pow_sub_one_eq_mod word 15
    have hbit : word &&& 0x8000 ≠ 0 ↔ word / 2 ^ 15 % 2 = 1 := by
      rw [show (0x8000 : Nat) = 2 ^ 15 from rfl, and_two_pow, testBit_eq_decide_div_mod_eq]
      simp
    simp only [decodeHeader, htime, hword, hrest, ofBeBytes_beBytes, hlength',
      mod_eq_of_lt (show word < 256 ^ 2 from hlt), hlow, hbit]
    rfl
  have hid' : id < 2 ^ 15 := hid
  cases direction with
  | initiatorDir =>
    have hword : 0 ||| (id &&& 0x7FFF) = id := by rw [zero_or, protocolId_and hid']
    simp only [encodeHeader, hword]
    rw [hfields id (by omega), mod_eq_of_lt hid', if_neg (by omega)]
  | responderDir =>
  have hword : 0x8000 ||| (id &&& 0x7FFF) = 2 ^ 15 + id := by
    rw [protocolId_and hid']
    exact (two_pow_add_eq_or_of_lt hid' 1).symm
  simp only [encodeHeader, hword]
  rw [hfields (2 ^ 15 + id) (by omega), add_mod_left, mod_eq_of_lt hid', if_pos (by omega)]

/-! ## Segments -/

/-- A segment on its way: header data and payload. -/
structure Sdu where
  timestamp : Nat
  key : ChannelKey
  payload : Bytes

variable (sdu : Sdu)

def Sdu.header : SduHeader := ⟨sdu.timestamp, sdu.key.1, sdu.key.2, sdu.payload.length⟩

/-- The bytes of a segment on the bearer. -/
def Sdu.encode : Bytes := encodeHeader sdu.header ++ sdu.payload

/-- What a segment brings to which channel. -/
def Sdu.piece : ChannelKey × Bytes := (sdu.key, sdu.payload)

/-- The bytes of one channel in some segments. -/
def carried (key : ChannelKey) (sdus : List Sdu) : Bytes := on key (sdus.map Sdu.piece)

variable (key : ChannelKey)

@[simp] theorem carried_nil : carried key [] = [] := rfl

@[simp] theorem carried_append (a b : List Sdu) :
    carried key (a ++ b) = carried key a ++ carried key b := by
  simp [carried]

/-- What the first segment adds to a channel. -/
theorem carried_cons (sdu : Sdu) (sdus : List Sdu) : carried key (sdu :: sdus) =
      (if sdu.key = key then sdu.payload else []) ++ carried key sdus := by
  rw [carried, map_cons, on_cons, on_singleton]
  rfl

/-- The channels whose messages are followed: their numbers fit a header and are not the reserved
one. -/
def Routable (chan : ChannelKey → Prop) : Prop := ∀ key, chan key → key.1 < 2 ^ 15 ∧ key.1 ≠ 1

variable {chan : ChannelKey → Prop} {cfg : MuxConfig}

/-- A segment that the ingress side routes. -/
structure Sdu.Valid (chan : ChannelKey → Prop) (sdu : Sdu) : Prop where
  channel : chan sdu.key
  length : sdu.payload.length < 2 ^ 16

/-! ## Egress -/

section
variable (e : Egress)

/-- What of a channel has not become a segment yet. -/
def Egress.stream (key : ChannelKey) : Bytes :=
  (e.queue key).flatten ++ on key e.pending.toList ++ on key e.rx

/-- Only the channels' own keys are there. -/
structure Egress.Keyed (chan : ChannelKey → Prop) (e : Egress) : Prop where
  queues : ∀ key, e.queue key ≠ [] → chan key
  pending : ∀ msg ∈ e.pending, chan msg.1
  rx : ∀ msg ∈ e.rx, chan msg.1

/-- Nothing is held while the loop waits. -/
def Egress.Calm : Prop := e.point = .wait → e.pending = none

/-- A step from `e` to `e'` that writes `out` makes the segments `sdus`. -/
structure Emits (chan : ChannelKey → Prop) (e e' : Egress) (out : Bytes) (sdus : List Sdu) :
    Prop where
  valid : ∀ sdu ∈ sdus, sdu.Valid chan
  bytes : e.batchBuf ++ sdus.flatMap Sdu.encode = out ++ e'.batchBuf
  flushed : out = [] ∨ e'.batchBuf = []
  stream : ∀ key, e.stream key = carried key sdus ++ e'.stream key

variable (msg : ChannelKey × Bytes)

theorem queue_enqueueMessage (key : ChannelKey) : ((e.enqueueMessage cfg msg).queue key).flatten ++
        on key (e.enqueueMessage cfg msg).pending.toList =
      (e.queue key).flatten ++ on key [msg] := by
  unfold enqueueMessage
  dsimp only
  split
  · rfl
  simp only [queue, lookup_insert_ite, toList_none, on_nil, append_nil, on_singleton]
  split
  · next hkey =>
    rw [if_pos hkey.symm, hkey, getD_some, flatten_append]
    simp
  · next hkey => rw [if_neg (Ne.symm hkey), append_nil]

theorem batchBuf_enqueueMessage : (e.enqueueMessage cfg msg).batchBuf = e.batchBuf := by
  unfold enqueueMessage
  dsimp only
  split <;> rfl

theorem rx_enqueueMessage : (e.enqueueMessage cfg msg).rx = e.rx := by
  unfold enqueueMessage
  dsimp only
  split <;> rfl

end

/-- A message moves to its queue without a change of the stream. -/
theorem stream_enqueueMessage (cfg : MuxConfig) (e : Egress) (msg : ChannelKey × Bytes)
    (key : ChannelKey) :
    (e.enqueueMessage cfg msg).stream key =
      (e.queue key).flatten ++ on key [msg] ++ on key e.rx := by
  rw [stream, queue_enqueueMessage, rx_enqueueMessage]

variable {msg : ChannelKey × Bytes}

theorem enqueueMessage_keyed {e : Egress} (hmsg : chan msg.1)
    (hqueues : ∀ key, e.queue key ≠ [] → chan key) (hrx : ∀ m ∈ e.rx, chan m.1) :
    (e.enqueueMessage cfg msg).Keyed chan := by
  unfold enqueueMessage
  dsimp only
  split
  · refine ⟨hqueues, ?_, hrx⟩
    rintro m ⟨⟩
    exact hmsg
  refine ⟨fun key hkey => ?_, fun m hm => (nomatch hm), hrx⟩
  simp only [queue, lookup_insert_ite] at hkey
  by_cases heq : key = msg.1
  · exact heq ▸ hmsg
  · rw [if_neg heq] at hkey
    exact hqueues key hkey

/-- A step that makes no segment and writes nothing. -/
theorem Emits.quiet {e e' : Egress} (hbatch : e'.batchBuf = e.batchBuf)
    (hstream : ∀ key, e'.stream key = e.stream key) : Emits chan e e' [] [] where
  valid := fun _ h => absurd h not_mem_nil
  bytes := by rw [hbatch, flatMap_nil, append_nil, nil_append]
  flushed := .inl rfl
  stream := fun key => (hstream key).symm

/-- The segment that `serveFront` makes. -/
def frontSdu (cfg : MuxConfig) (timestamp : Nat) (key : ChannelKey) (data : Bytes) : Sdu :=
  ⟨timestamp, key, data.take (min data.length cfg.sduSize)⟩

theorem length_frontSdu (timestamp : Nat) (key : ChannelKey) (data : Bytes) :
    (frontSdu cfg timestamp key data).payload.length = min data.length cfg.sduSize := by
  rw [frontSdu, length_take]
  omega

/-- What is left of a queue when a segment of its front is gone. -/
def restQueue (cfg : MuxConfig) (data : Bytes) (queue : List Bytes) : List Bytes :=
  if min data.length cfg.sduSize < data.length then
    data.drop (min data.length cfg.sduSize) :: queue
  else queue

theorem flatten_restQueue (cfg : MuxConfig) (timestamp : Nat) (key : ChannelKey) (data : Bytes)
    (queue : List Bytes) :
    (frontSdu cfg timestamp key data).payload ++ (restQueue cfg data queue).flatten =
      data ++ queue.flatten := by
  unfold restQueue frontSdu
  split
  · rw [flatten_cons, ← append_assoc, take_append_drop]
  · next hrest => rw [take_of_length_le (not_lt.1 hrest)]

section Serve
variable {timestamp : Nat} {e : Egress} {key : ChannelKey} {keys : List ChannelKey} {data : Bytes}
  {queue : List Bytes}

/-- The loop has taken a segment from the front of a queue. -/
def Egress.served (cfg : MuxConfig) (e : Egress) (key : ChannelKey) (keys : List ChannelKey)
    (data : Bytes) (queue : List Bytes) (batchBuf : Bytes) : Egress :=
  { e with
    queues := e.queues.insert key (restQueue cfg data queue)
    channelBytes := e.channelBytes.insert key
      (e.bytesAt key - data.length + (data.length - min data.length cfg.sduSize))
    batchBuf
    point := .serve keys true }

/-- The segment is in the batch, or the batch is written. -/
theorem serveFront_cases (cfg : MuxConfig) (timestamp : Nat) (e : Egress) (key : ChannelKey)
    (keys : List ChannelKey) (data : Bytes) (queue : List Bytes) :
    ∃ batchBuf out, e.serveFront cfg timestamp key keys data queue =
        (e.served cfg key keys data queue batchBuf, out) ∧
      e.batchBuf ++ (encodeHeader
          ⟨timestamp, key.1, key.2, min data.length cfg.sduSize % 2 ^ 16⟩ ++
        data.take (min data.length cfg.sduSize)) = out ++ batchBuf ∧
      (out = [] ∨ batchBuf = []) := by
  unfold serveFront served restQueue
  dsimp only
  by_cases hrest : min data.length cfg.sduSize < data.length
  · rw [if_pos hrest, if_pos hrest, length_drop]
    split
    · exact ⟨[], _, rfl, (append_nil _).symm, .inr rfl⟩
    · exact ⟨_, [], rfl, rfl, .inl rfl⟩
  rw [if_neg hrest, if_neg hrest, Nat.sub_eq_zero_of_le (not_lt.1 hrest), Nat.add_zero]
  split
  · exact ⟨[], _, rfl, (append_nil _).symm, .inr rfl⟩
  · exact ⟨_, [], rfl, rfl, .inl rfl⟩

theorem queue_served (batchBuf : Bytes) (key' : ChannelKey) :
    (e.served cfg key keys data queue batchBuf).queue key' =
      if key' = key then restQueue cfg data queue else e.queue key' := by
  rw [Egress.queue, served, lookup_insert_ite]
  split
  · rfl
  · rfl

/-- Serving a queue emits the front of its stream. -/
theorem emits_serveFront (hsdu : cfg.sduSize < 2 ^ 16) (h : e.Keyed chan)
    (hqueue : e.queue key = data :: queue) :
    Emits chan e (e.serveFront cfg timestamp key keys data queue).1
      (e.serveFront cfg timestamp key keys data queue).2
      [frontSdu cfg timestamp key data] := by
  obtain ⟨batchBuf, out, hserve, hbytes, hflushed⟩ :=
    serveFront_cases cfg timestamp e key keys data queue
  rw [hserve]
  refine ⟨?_, ?_, hflushed, ?_⟩
  · intro sdu hmem
    rw [mem_singleton.1 hmem]
    have hchan : chan key := h.queues key (hqueue ▸ cons_ne_nil data queue)
    refine ⟨hchan, ?_⟩
    rw [length_frontSdu]
    omega
  · rw [mod_eq_of_lt (by omega)] at hbytes
    rw [flatMap_cons, flatMap_nil, append_nil, Sdu.encode, Sdu.header, length_frontSdu]
    exact hbytes
  · intro key'
    rw [stream, stream, queue_served, carried_cons, carried_nil, append_nil]
    by_cases hkey : key' = key
    · subst hkey
      rw [if_pos rfl, if_pos (show (frontSdu cfg timestamp key' data).key = key' from rfl), hqueue,
        flatten_cons, ← flatten_restQueue cfg timestamp key' data queue]
      simp only [append_assoc]
      rfl
    · rw [if_neg hkey, if_neg (show (frontSdu cfg timestamp key data).key ≠ key' from
        Ne.symm hkey), nil_append]
      rfl

theorem serveFront_keyed (h : e.Keyed chan) (hqueue : e.queue key = data :: queue) :
    (e.serveFront cfg timestamp key keys data queue).1.Keyed chan := by
  obtain ⟨batchBuf, out, hserve, -⟩ := serveFront_cases cfg timestamp e key keys data queue
  rw [hserve]
  refine ⟨fun key' hne => ?_, h.pending, h.rx⟩
  by_cases hkey : key' = key
  · exact hkey ▸ h.queues key (hqueue ▸ cons_ne_nil data queue)
  · rw [queue_served, if_neg hkey] at hne
    exact h.queues key' hne

end Serve

/-! ### The end of a round -/

theorem queue_kept (e : Egress) (key : ChannelKey) : e.kept.queue key = e.queue key := by
  unfold kept queue
  rw [lookup_retain]
  cases hqueue : e.queues.lookup key with
  | none => rfl
  | some queue =>
    cases queue with
    | nil | cons data queue => rfl

theorem stream_retried (e : Egress) (key : ChannelKey) :
    (e.retried cfg).stream key = e.stream key := by
  unfold retried
  cases hpending : e.pending with
  | none =>
    rw [stream, stream, queue_kept, hpending]
    rfl
  | some msg =>
    rw [stream_enqueueMessage, queue_kept, stream, hpending]
    rfl

theorem batchBuf_retried (e : Egress) : (e.retried cfg).batchBuf = [] := by
  unfold retried
  cases e.pending with
  | none => rfl
  | some msg => exact batchBuf_enqueueMessage e.kept msg

variable {e : Egress} {p : Port} {sent : List Bytes} {rest wire : Bytes} {l : Link}
  {key : ChannelKey}

theorem retried_keyed (h : e.Keyed chan) : (e.retried cfg).Keyed chan := by
  have hqueues : ∀ key, e.kept.queue key ≠ [] → chan key :=
    fun key hkey => h.queues key (queue_kept e key ▸ hkey)
  unfold retried
  cases hpending : e.pending with
  | none => exact ⟨hqueues, fun m hm => (nomatch hm), h.rx⟩
  | some msg => exact enqueueMessage_keyed (h.pending msg hpending) hqueues h.rx

theorem emits_endRound (e : Egress) (madeProgress : Bool) :
    Emits chan e (e.endRound cfg madeProgress).1 (e.endRound cfg madeProgress).2 [] where
  valid := fun _ h => absurd h not_mem_nil
  bytes := by
    show e.batchBuf ++ [] = e.batchBuf ++ (e.retried cfg).batchBuf
    rw [batchBuf_retried]
  flushed := .inr (batchBuf_retried e)
  stream := fun key => (stream_retried e key).symm

theorem afterRound_eq_wait {α : Type} {madeProgress : Bool} {pending : Option α}
    (h : afterRound madeProgress pending = .wait) : madeProgress = false ∧ pending = none := by
  cases madeProgress with
  | true =>
    cases pending with
    | none | some msg => cases h
  | false =>
    cases pending with
    | none => exact ⟨rfl, rfl⟩
    | some msg => cases h

/-! ### One step -/

/-- The points at which new messages are taken. -/
inductive EgressPoint.Taking : EgressPoint → Prop where
  | drain (sduCount : Nat) : Taking (.drain sduCount)
  | drainAll : Taking .drainAll

/-- What a step of the egress loop can do. -/
inductive Egress.Moves (cfg : MuxConfig) (timestamp : Nat) (e : Egress) : Egress × Bytes → Prop
  | begin (keys : List ChannelKey) (hpoint : e.point = .top)
    (hkeys : ∀ key, e.queue key ≠ [] → key ∈ keys) :
    Moves cfg timestamp e ({ e with point := .serve keys false }, [])
  | pass (key : ChannelKey) (keys : List ChannelKey) (madeProgress : Bool)
    (hpoint : e.point = .serve (key :: keys) madeProgress) (hqueue : e.queue key = []) :
    Moves cfg timestamp e ({ e with point := .serve keys madeProgress }, [])
  | serve (key : ChannelKey) (keys : List ChannelKey) (madeProgress : Bool) (data : Bytes)
    (queue : List Bytes) (hpoint : e.point = .serve (key :: keys) madeProgress)
    (hqueue : e.queue key = data :: queue) :
    Moves cfg timestamp e (e.serveFront cfg timestamp key keys data queue)
  | endRound (madeProgress : Bool) (hpoint : e.point = .serve [] madeProgress) :
    Moves cfg timestamp e (e.endRound cfg madeProgress)
  | leave (hpoint : e.point.Taking) : Moves cfg timestamp e ({ e with point := .top }, [])
  | take (msg : ChannelKey × Bytes) (rx : List (ChannelKey × Bytes)) (point : EgressPoint)
    (hpoint : e.point = .wait ∨ e.point.Taking ∧ e.pending = none) (hrx : e.rx = msg :: rx)
    (hnext : point = .top ∨ point.Taking) : Moves cfg timestamp e (e.take cfg msg rx point, [])
  | block (hpoint : e.point = .wait) (hrx : e.rx = []) : Moves cfg timestamp e (e, [])

theorem moves_drainNext (timestamp : Nat) (hpoint : e.point.Taking)
    {point : EgressPoint} (hnext : point = .top ∨ point.Taking) :
    e.Moves cfg timestamp (e.drainNext cfg point, []) := by
  unfold drainNext
  split
  · next msg rx hpending hrx => exact .take msg rx point (.inr ⟨hpoint, hpending⟩) hrx hnext
  · exact .leave hpoint

theorem mem_keys_of_queue (h : e.queue key ≠ []) : key ∈ e.queues.keys := by
  rw [FinMap.mem_keys]
  unfold queue at h
  cases hqueue : e.queues.lookup key with
  | none => rw [hqueue] at h; exact absurd rfl h
  | some queue => rfl

/-- A step of the egress loop is one of its moves. -/
theorem moves_step (cfg : MuxConfig) (order : Listing.Enumeration ChannelKey) (timestamp : Nat)
    (e : Egress) :
    e.Moves cfg timestamp (e.step cfg order timestamp) := by
  unfold step
  split
  · next hpoint => exact .begin _ hpoint fun key hkey => order.mem_list.2 (mem_keys_of_queue hkey)
  · next madeProgress hpoint => exact .endRound madeProgress hpoint
  · next key keys madeProgress hpoint =>
    split
    · next hqueue => exact .pass key keys madeProgress hpoint hqueue
    · next data queue hqueue => exact .serve key keys madeProgress data queue hpoint hqueue
  · next sduCount hpoint =>
    refine moves_drainNext timestamp (hpoint ▸ .drain sduCount) ?_
    split
    · exact .inl rfl
    · exact .inr (.drain _)
  · next hpoint =>
    split
    · next hrx => exact .block hpoint hrx
    · next msg rx hrx => exact .take msg rx .drainAll (.inl hpoint) hrx (.inr .drainAll)
  · next hpoint => exact moves_drainNext timestamp (hpoint ▸ .drainAll) (.inr .drainAll)

variable {next : Egress × Bytes} {timestamp : Nat}

/-- One step of the egress loop keeps the order of every channel's bytes. -/
theorem Egress.Moves.emits (hsdu : cfg.sduSize < 2 ^ 16) (hkeyed : e.Keyed chan) (hcalm : e.Calm)
    (h : e.Moves cfg timestamp next) : ∃ sdus, Emits chan e next.1 next.2 sdus := by
  cases h with
  | begin | pass | leave | block => exact ⟨[], .quiet rfl fun _ => rfl⟩
  | serve key keys madeProgress data queue hpoint hqueue =>
    exact ⟨_, emits_serveFront hsdu hkeyed hqueue⟩
  | endRound madeProgress => exact ⟨[], emits_endRound e madeProgress⟩
  | take msg rx point hpoint hrx =>
    have hpending := hpoint.elim hcalm And.right
    refine ⟨[], .quiet (batchBuf_enqueueMessage _ msg) fun key => ?_⟩
    refine (stream_enqueueMessage cfg { e with rx := rx } msg key).trans ?_
    rw [stream, hpending, hrx, on_cons key msg rx, toList_none, on_nil, append_nil, append_assoc]
    rfl

theorem Egress.Moves.keyed
    (hkeyed : e.Keyed chan) (h : e.Moves cfg timestamp next) : next.1.Keyed chan := by
  cases h with
  | begin | pass | leave | block => exact { hkeyed with }
  | serve key keys madeProgress data queue hpoint hqueue => exact serveFront_keyed hkeyed hqueue
  | endRound madeProgress =>
    have hretried : (e.retried cfg).Keyed chan := retried_keyed hkeyed
    exact { hretried with }
  | take msg rx point hpoint hrx =>
    have hmem := hrx ▸ hkeyed.rx
    have htaken : ({ e with rx := rx }.enqueueMessage cfg msg).Keyed chan :=
      enqueueMessage_keyed (hmem msg mem_cons_self) hkeyed.queues
        fun m hm => hmem m (mem_cons_of_mem _ hm)
    exact { htaken with }

theorem Egress.Moves.calm (hcalm : e.Calm) (h : e.Moves cfg timestamp next) : next.1.Calm := by
  cases h with
  | begin | pass | leave => exact fun hwait => nomatch hwait
  | block => exact hcalm
  | serve key keys madeProgress data queue =>
    obtain ⟨batchBuf, out, hserve, -⟩ := serveFront_cases cfg timestamp e key keys data queue
    rw [hserve]
    exact fun hwait => nomatch hwait
  | endRound madeProgress => exact fun hwait => (afterRound_eq_wait hwait).2
  | take msg rx point hpoint hrx hnext =>
  rintro (rfl : point = .wait)
  rcases hnext with hnext | hnext
  · cases hnext
  · cases hnext

/-! ## Channels -/

variable {M : LocalDecoder} {sdus : List Sdu}

/-- Of the messages that were sent on a channel, some were received, and the others are in the
buffer, the queue and what follows. -/
def Port.Holds (p : Port) (sent : List Bytes) (rest : Bytes) : Prop :=
  ∃ left, sent = p.received ++ left ∧ p.reassemblyBuf ++ (p.inbox.flatten ++ rest) = left.flatten

/-- What was received is a beginning of what was sent. -/
theorem Port.Holds.isPrefix (h : p.Holds sent rest) : p.received <+: sent := by
  obtain ⟨left, rfl, -⟩ := h
  exact prefix_append _ _

theorem Port.Holds.send (h : p.Holds sent rest)
    (msgs : List Bytes) : p.Holds (sent ++ msgs) (rest ++ msgs.flatten) := by
  obtain ⟨left, rfl, hleft⟩ := h
  refine ⟨left ++ msgs, append_assoc _ _ _, ?_⟩
  rw [flatten_append, ← hleft]
  simp only [append_assoc]

theorem received_takeChunk (protocolId : Nat) (p : Port) (chunk : Bytes) (inbox : List Bytes) :
    (p.takeChunk protocolId chunk inbox).received = p.received := by
  unfold takeChunk received
  dsimp only
  split
  · rw [filterMap_append]
    exact append_nil _
  · rfl

theorem Port.Holds.takeChunk {chunk : Bytes}
    {inbox : List Bytes} (h : p.Holds sent rest) (hinbox : p.inbox = chunk :: inbox)
    (protocolId : Nat) : (p.takeChunk protocolId chunk inbox).Holds sent rest := by
  obtain ⟨left, hsent, hleft⟩ := h
  refine ⟨left, by rw [received_takeChunk]; exact hsent, ?_⟩
  rw [← hleft, hinbox, flatten_cons]
  show p.reassemblyBuf ++ chunk ++ _ = _
  simp only [append_assoc]
  rfl

section
variable (hitems : ∀ m ∈ sent, M.detector.Item m) (h : p.Holds sent rest)
include hitems h

/-- What the detector finds is the next message. -/
theorem Port.Holds.returnMessage {boundary : Nat}
    (hboundary : tryDecodeCborBoundary M.toCborDecoder p.reassemblyBuf = some boundary) :
    (p.returnMessage boundary).Holds sent rest := by
  obtain ⟨left, rfl, hleft⟩ := h
  have hleftItems : ∀ m ∈ left, M.detector.Item m := fun m hm => hitems m (mem_append_right _ hm)
  obtain ⟨left', rfl, hleft'⟩ :=
    Detector.next_of_boundary (D := M.detector) hleftItems hleft hboundary
  refine ⟨left', ?_, hleft'⟩
  unfold returnMessage received
  rw [filterMap_append, append_assoc]
  rfl

/-- A pass of `recv` loses nothing. -/
theorem Port.Holds.recv (protocolId : Nat) :
    (p.recv M.toCborDecoder protocolId).Holds sent rest := by
  unfold Port.recv
  split
  · next boundary hboundary => exact h.returnMessage hitems hboundary
  · next chunk inbox _ hinbox => exact h.takeChunk hinbox protocolId
  · exact h

theorem Port.Holds.tryRecv (protocolId : Nat) :
    (p.tryRecv M.toCborDecoder protocolId).Holds sent rest := by
  unfold Port.tryRecv
  split
  · next chunk inbox hinbox => exact h.takeChunk hinbox protocolId
  · next boundary _ hboundary => exact h.returnMessage hitems hboundary
  · exact h

end

/-- A routed payload joins the inbox. -/
theorem Port.Holds.deliver {p' : Port} {payload : Bytes}
    {protocolId : Nat} (h : p.Holds sent (payload ++ rest))
    (hdeliver : p.deliver cfg protocolId payload = .ok p') : p'.Holds sent rest := by
  unfold Port.deliver at hdeliver
  split at hdeliver
  · next hempty =>
    cases hdeliver
    rwa [List.isEmpty_iff.1 hempty] at h
  dsimp only at hdeliver
  split at hdeliver
  · cases hdeliver
  cases hdeliver
  obtain ⟨left, hsent, hleft⟩ := h
  refine ⟨left, hsent, ?_⟩
  rw [← hleft]
  simp [flatten_append, append_assoc]

/-! ## The connection -/

theorem flipKey_involutive : Function.Involutive flipKey := by
  rintro ⟨id, direction⟩
  cases direction with
  | initiatorDir | responderDir => rfl

/-- The bytes on the wire are these segments; the header of the first may be read already. -/
inductive OnWire : IngressPoint → Bytes → List Sdu → Prop
  | header (sdus : List Sdu) : OnWire .header (sdus.flatMap Sdu.encode) sdus
  | payload (header : SduHeader) (sdu : Sdu) (sdus : List Sdu)
    (hkey : (header.protocolId, header.direction) = sdu.key)
    (hlength : header.payloadLength = sdu.payload.length) :
    OnWire (.payload header) (sdu.payload ++ sdus.flatMap Sdu.encode) (sdu :: sdus)

theorem OnWire.append {point : IngressPoint} (h : OnWire point wire sdus) (more : List Sdu) :
    OnWire point (wire ++ more.flatMap Sdu.encode) (sdus ++ more) := by
  cases h with
  | header =>
    rw [← flatMap_append]
    exact .header _
  | payload header sdu sdus hkey hlength =>
    rw [append_assoc, ← flatMap_append]
    exact .payload header sdu _ hkey hlength

/-- The limits that end a connection. -/
inductive MuxError.IsLimit : MuxError → Prop where
  | overrun (protocolId bytes limit : Nat) : IsLimit (.ingressQueueOverrun protocolId bytes limit)
  | timeout : IsLimit .sduReadTimeout

/-- For every channel, `rest` is what was sent and has not arrived. -/
structure Link.Carries (chan : ChannelKey → Prop) (M : LocalDecoder) (l : Link)
    (rest : ChannelKey → Bytes) : Prop where
  sent : ∀ p ∈ l.sent, chan p.1 ∧ M.detector.Item p.2
  keyed : l.egress.Keyed chan
  calm : l.egress.Calm
  ports : ∀ key, chan key → ∃ port, l.ports.lookup (flipKey key) = some port ∧
    port.Holds (pieces key l.sent) (rest key)

/-- What has not arrived is on the wire, in the batch and with the egress task. -/
structure Link.Flows (chan : ChannelKey → Prop) (l : Link) (rest : ChannelKey → Bytes)
    (wire batch : List Sdu) : Prop where
  valid : ∀ sdu ∈ wire ++ batch, sdu.Valid chan
  onWire : OnWire l.ingress l.wire wire
  batchBuf : l.egress.batchBuf = batch.flatMap Sdu.encode
  rest : ∀ key, rest key = carried key (wire ++ batch) ++ l.egress.stream key

/-- Either everything that has not arrived is on its way, or a limit has ended the connection. -/
def Link.Invariant (chan : ChannelKey → Prop) (M : LocalDecoder) (l : Link) : Prop :=
  ∃ rest, l.Carries chan M rest ∧
    ((∃ e, l.ingress = .failed e ∧ e.IsLimit) ∨ ∃ wire batch, l.Flows chan rest wire batch)

variable {rest : ChannelKey → Bytes} {header : SduHeader}

theorem pieces_sent_items (h : l.Carries chan M rest)
    (key : ChannelKey) : ∀ m ∈ pieces key l.sent, M.detector.Item m :=
  fun m hm => (h.sent (key, m) (by simpa [pieces] using hm)).2

/-- A send keeps the link in order. -/
theorem invariant_send (h : l.Invariant chan M) {msg : Bytes}
    (hkey : chan key) (hmsg : M.detector.Item msg) :
    (l.step cfg M.toCborDecoder (.send key msg)).Invariant chan M := by
  obtain ⟨rest, hcarries, hflow⟩ := h
  unfold Link.step
  dsimp only
  split
  · have hstream : ∀ key', stream { l.egress with rx := l.egress.rx ++ [(key, msg)] } key' =
        l.egress.stream key' ++ on key' [(key, msg)] := by
      intro key'
      unfold stream
      rw [on_append, ← append_assoc]
      rfl
    refine ⟨fun key' => rest key' ++ on key' [(key, msg)], ⟨?_, ?_, hcarries.calm, ?_⟩, ?_⟩
    · intro p hp
      rcases mem_append.1 hp with hp | hp
      · exact hcarries.sent p hp
      · rw [mem_singleton.1 hp]
        exact ⟨hkey, hmsg⟩
    · refine { hcarries.keyed with rx := fun p hp => ?_ }
      rcases mem_append.1 hp with hp | hp
      · exact hcarries.keyed.rx p hp
      · rw [mem_singleton.1 hp]
        exact hkey
    · intro key' hkey'
      obtain ⟨port, hport, hholds⟩ := hcarries.ports key' hkey'
      refine ⟨port, hport, ?_⟩
      rw [pieces_append]
      exact hholds.send _
    · rcases hflow with hfailed | ⟨wire, batch, hflows⟩
      · exact .inl hfailed
      · refine .inr ⟨wire, batch, hflows.valid, hflows.onWire, hflows.batchBuf, fun key' => ?_⟩
        rw [hflows.rest, hstream, append_assoc]
  · exact ⟨rest, hcarries, hflow⟩

/-- A step of the egress loop keeps it. -/
theorem invariant_egress (hsdu : cfg.sduSize < 2 ^ 16) (h : l.Invariant chan M)
    (order : Listing.Enumeration ChannelKey) (timestamp : Nat) :
    (l.step cfg M.toCborDecoder (.egress order timestamp)).Invariant chan M := by
  obtain ⟨rest, hcarries, hflow⟩ := h
  have hmoves := moves_step cfg order timestamp l.egress
  refine ⟨rest, ⟨hcarries.sent, hmoves.keyed hcarries.keyed, hmoves.calm hcarries.calm,
    hcarries.ports⟩, ?_⟩
  rcases hflow with hfailed | ⟨wire, batch, hflows⟩
  · exact .inl hfailed
  obtain ⟨sdus, hemits⟩ := hmoves.emits hsdu hcarries.keyed hcarries.calm
  have hbytes := hemits.bytes
  rw [hflows.batchBuf, ← flatMap_append] at hbytes
  have hrest : ∀ key, rest key = carried key (wire ++ (batch ++ sdus)) ++
      (l.egress.step cfg order timestamp).1.stream key := by
    intro key
    rw [hflows.rest, hemits.stream, ← append_assoc, ← carried_append, append_assoc]
  have hvalid : ∀ sdu ∈ wire ++ (batch ++ sdus), sdu.Valid chan := by
    intro sdu hmem
    rw [← append_assoc] at hmem
    rcases mem_append.1 hmem with hmem | hmem
    · exact hflows.valid sdu hmem
    · exact hemits.valid sdu hmem
  -- either the segments stay in the batch, or the whole batch is on the wire now
  rcases hemits.flushed with hout | hbatch
  · rw [hout, nil_append] at hbytes
    refine .inr ⟨wire, batch ++ sdus, hvalid, ?_, hbytes.symm, hrest⟩
    show OnWire l.ingress (l.wire ++ (l.egress.step cfg order timestamp).2) wire
    rw [hout, append_nil]
    exact hflows.onWire
  rw [hbatch, append_nil] at hbytes
  refine .inr ⟨wire ++ (batch ++ sdus), [], ?_, ?_, hbatch, fun key => ?_⟩
  · rwa [append_nil]
  · show OnWire l.ingress (l.wire ++ (l.egress.step cfg order timestamp).2) _
    rw [← hbytes]
    exact hflows.onWire.append _
  · rw [append_nil]
    exact hrest key

/-- A call on a port keeps it. -/
theorem invariant_onPort (h : l.Invariant chan M) (key : ChannelKey) {call : Nat → Port → Port}
    (hcall : ∀ {p : Port} {sent : List Bytes} {rest : Bytes},
      (∀ m ∈ sent, M.detector.Item m) → p.Holds sent rest → ∀ id, (call id p).Holds sent rest) :
    (l.onPort key call).Invariant chan M := by
  obtain ⟨rest, hcarries, hflow⟩ := h
  unfold Link.onPort
  cases hport : l.ports.lookup key with
  | none => exact ⟨rest, hcarries, hflow⟩
  | some port =>
  refine ⟨rest, { hcarries with ports := fun key' hkey' => ?_ }, ?_⟩
  · obtain ⟨port', hport', hholds⟩ := hcarries.ports key' hkey'
    rw [lookup_insert_ite]
    by_cases heq : flipKey key' = key
    · rw [heq, hport] at hport'
      cases hport'
      exact ⟨_, if_pos heq, hcall (pieces_sent_items hcarries key') hholds _⟩
    · exact ⟨port', (if_neg heq).trans hport', hholds⟩
  · rcases hflow with hfailed | ⟨wire, batch, hflows⟩
    · exact .inl hfailed
    · exact .inr ⟨wire, batch, hflows.valid, hflows.onWire, hflows.batchBuf, hflows.rest⟩

theorem OnWire.of_header (h : OnWire .header wire sdus) : wire = sdus.flatMap Sdu.encode := by
  cases h
  rfl

theorem OnWire.of_payload (h : OnWire (.payload header) wire sdus) :
    ∃ sdu rest, sdus = sdu :: rest ∧ (header.protocolId, header.direction) = sdu.key ∧
      header.payloadLength = sdu.payload.length ∧
      wire = sdu.payload ++ rest.flatMap Sdu.encode := by
  cases h with
  | payload _ sdu rest hkey hlength => exact ⟨sdu, rest, rfl, hkey, hlength, rfl⟩

theorem flows_of_not_failed
    (h : (∃ e, l.ingress = .failed e ∧ e.IsLimit) ∨ ∃ wire batch, l.Flows chan rest wire batch)
    (hingress : ∀ e, l.ingress ≠ .failed e) : ∃ wire batch, l.Flows chan rest wire batch :=
  h.elim (fun ⟨e, he, _⟩ => absurd he (hingress e)) id

/-- The header that is read is the one of the next segment. -/
theorem invariant_header (hchan : Routable chan) (h : l.Invariant chan M)
    (hingress : l.ingress = .header) : (l.ingressStep cfg).Invariant chan M := by
  obtain ⟨rest, hcarries, hflow⟩ := h
  unfold Link.ingressStep
  rw [hingress]
  dsimp only
  split
  · exact ⟨rest, hcarries, hflow⟩
  next hlong =>
  obtain ⟨wire, batch, hflows⟩ :=
    flows_of_not_failed hflow fun e he => by rw [hingress] at he; cases he
  have hwire := OnWire.of_header (hingress ▸ hflows.onWire)
  refine ⟨rest, { hcarries with }, .inr ?_⟩
  cases wire with
  | nil =>
    rw [hwire] at hlong
    exact absurd (succ_pos 7) hlong
  | cons sdu wire =>
  have hsdu := hflows.valid sdu (mem_append_left _ mem_cons_self)
  obtain ⟨hid, hreserved⟩ := hchan sdu.key hsdu.channel
  have htake : l.wire.take headerSize = encodeHeader sdu.header := by
    rw [hwire]
    exact take_left' (length_encodeHeader _)
  have hdrop : l.wire.drop headerSize = sdu.payload ++ wire.flatMap Sdu.encode := by
    rw [hwire]
    exact drop_left' (length_encodeHeader _)
  have hheader := decodeHeader_encodeHeader (h := sdu.header) hid hsdu.length
  refine ⟨sdu :: wire, batch, hflows.valid, ?_, hflows.batchBuf, hflows.rest⟩
  rw [htake, hdrop, hheader]
  rw [if_neg (show ¬sdu.header.protocolId = 1 from hreserved)]
  exact .payload _ sdu wire rfl rfl

/-- The payload goes to the channel of its segment. -/
theorem invariant_payload (h : l.Invariant chan M)
    (hingress : l.ingress = .payload header) : (l.ingressStep cfg).Invariant chan M := by
  obtain ⟨rest, hcarries, hflow⟩ := h
  unfold Link.ingressStep
  rw [hingress]
  dsimp only
  split
  · exact ⟨rest, hcarries, hflow⟩
  obtain ⟨wire, batch, hflows⟩ :=
    flows_of_not_failed hflow fun e he => by rw [hingress] at he; cases he
  obtain ⟨sdu, wire, rfl, hkey, hlength, hwire⟩ := OnWire.of_payload (hingress ▸ hflows.onWire)
  have hsdu := hflows.valid sdu (mem_append_left _ mem_cons_self)
  have htake : l.wire.take header.payloadLength = sdu.payload := by
    rw [hwire, hlength]
    exact take_left
  have hdrop : l.wire.drop header.payloadLength = wire.flatMap Sdu.encode := by
    rw [hwire, hlength]
    exact drop_left
  have hflip : (header.protocolId, header.direction.flip) = flipKey sdu.key := by
    rw [← hkey]
    rfl
  obtain ⟨port, hport, hholds⟩ := hcarries.ports sdu.key hsdu.channel
  rw [htake, hdrop, hflip, hport]
  dsimp only
  cases hdeliver : port.deliver cfg header.protocolId sdu.payload with
  | error e =>
    refine ⟨rest, { hcarries with }, .inl ⟨e, rfl, ?_⟩⟩
    unfold deliver at hdeliver
    split at hdeliver
    · cases hdeliver
    dsimp only at hdeliver
    split at hdeliver
    · cases hdeliver
      exact .overrun _ _ _
    · cases hdeliver
  | ok port' =>
    have hrest : ∀ key, rest key = (if sdu.key = key then sdu.payload else []) ++
        (carried key (wire ++ batch) ++ l.egress.stream key) := by
      intro key
      rw [hflows.rest, cons_append, carried_cons, append_assoc]
    refine ⟨fun key => carried key (wire ++ batch) ++ l.egress.stream key,
      { hcarries with ports := fun key hchan => ?_ },
      .inr ⟨wire, batch, ?_, .header wire, hflows.batchBuf, fun _ => rfl⟩⟩
    · rw [lookup_insert_ite]
      by_cases heq : key = sdu.key
      · subst heq
        rw [hrest, if_pos rfl] at hholds
        exact ⟨port', if_pos rfl, hholds.deliver hdeliver⟩
      obtain ⟨port'', hport'', hholds''⟩ := hcarries.ports key hchan
      rw [hrest, if_neg (Ne.symm heq), nil_append] at hholds''
      exact ⟨port'', (if_neg fun hf => heq (flipKey_involutive.injective hf)).trans hport'',
        hholds''⟩
    · exact fun other hmem => hflows.valid other (mem_cons_of_mem _ hmem)

theorem invariant_timeout (h : l.Invariant chan M) :
    (l.step cfg M.toCborDecoder .sduReadTimeout).Invariant chan M := by
  obtain ⟨rest, hcarries, hflow⟩ := h
  unfold Link.step
  dsimp only
  split
  · split
    · exact ⟨rest, { hcarries with }, .inl ⟨_, rfl, .timeout⟩⟩
    · exact ⟨rest, hcarries, hflow⟩
  · exact ⟨rest, hcarries, hflow⟩

/-- A message on one of the channels that the detector recognises. -/
def Event.Proper (chan : ChannelKey → Prop) (M : LocalDecoder) : Event → Prop
  | .send key msg => chan key ∧ M.detector.Item msg
  | _ => True

/-- Every event keeps it. -/
theorem invariant_step (hchan : Routable chan) (hsdu : cfg.sduSize < 2 ^ 16)
    (h : l.Invariant chan M) {event : Event} (hevent : event.Proper chan M) :
    (l.step cfg M.toCborDecoder event).Invariant chan M := by
  cases event with
  | send key msg => exact invariant_send h hevent.1 hevent.2
  | egress order timestamp => exact invariant_egress hsdu h order timestamp
  | ingress =>
    show (l.ingressStep cfg).Invariant chan M
    cases hingress : l.ingress with
    | header => exact invariant_header hchan h hingress
    | payload header => exact invariant_payload h hingress
    | failed e =>
      unfold Link.ingressStep
      rw [hingress]
      exact h
  | sduReadTimeout => exact invariant_timeout h
  | recv key => exact invariant_onPort h key fun hitems hholds id => hholds.recv hitems id
  | tryRecv key => exact invariant_onPort h key fun hitems hholds id => hholds.tryRecv hitems id

/-- The channels of a connection: those whose other end is subscribed, with a number that fits a
header and is not the reserved one. -/
def Channel (limits : FinMap ChannelKey Nat) (key : ChannelKey) : Prop :=
  key.1 < 2 ^ 15 ∧ key.1 ≠ 1 ∧ (limits.lookup (flipKey key)).isSome

theorem routable_channel (limits : FinMap ChannelKey Nat) : Routable (Channel limits) :=
  fun _ h => ⟨h.1, h.2.1⟩

theorem invariant_start (M : LocalDecoder) (limits : FinMap ChannelKey Nat) :
    (Link.start limits).Invariant (Channel limits) M := by
  refine ⟨fun _ => [], ⟨?_, ⟨?_, ?_, ?_⟩, ?_, ?_⟩, .inr ⟨[], [], ?_, .header [], rfl, ?_⟩⟩
  · exact fun _ hp => absurd hp not_mem_nil
  · intro key hkey
    exact absurd (show queue _ key = [] by
      rw [queue, Link.start, Finmap.lookup_empty]; rfl) hkey
  · exact fun _ hm => nomatch hm
  · exact fun _ hm => absurd hm not_mem_nil
  · exact fun hwait => nomatch hwait
  · intro key hkey
    obtain ⟨limit, hlimit⟩ := isSome_iff_exists.1 hkey.2.2
    refine ⟨new limit, ?_, [], rfl, rfl⟩
    rw [Link.start, lookup_mapValues, hlimit]
    rfl
  · exact fun _ hmem => absurd hmem not_mem_nil
  · intro key
    have hqueue : queue (Link.start limits).egress key = [] := by
      rw [queue, Link.start, Finmap.lookup_empty]
      rfl
    unfold stream
    rw [hqueue]
    rfl

end Dugite.Mux
