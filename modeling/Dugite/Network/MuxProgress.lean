import Dugite.Network.MuxDelivery

/-!
# The multiplexer comes to rest

The tasks have something to do as long as a message has not arrived. `Egress.Paced` says what the
egress loop knows at each of its points; the message that is held back always waits behind others of
its channel, so the loop never spins. If no task can do anything and no limit has ended the
connection, every channel has returned what was sent on it (`received_of_quiescent`).

And the tasks cannot go on for ever without new messages: `Link.load` counts what is still to be
done for each byte, from the queue of new messages to the call that returns it, and every step that
does something lowers it, or brings the egress loop nearer to the point where it waits.
-/

namespace Dugite.Mux

open Framing FinMap List Egress Option Prod.Lex

variable {chan : ChannelKey → Prop} {cfg : MuxConfig} {M : LocalDecoder}

/-! ## The pace of the egress loop -/

/-- The message that is held waits for others of its channel. -/
def Egress.Held (e : Egress) : Prop := ∀ msg ∈ e.pending, e.queue msg.1 ≠ []

/-- The counters are exact. -/
def Egress.Counted (e : Egress) : Prop := ∀ key, e.bytesAt key = ((e.queue key).map length).sum

/-- What holds at each point of the loop. -/
def Egress.AtPoint (e : Egress) : EgressPoint → Prop
  | .top | .drain _ | .drainAll => e.batchBuf = [] ∧ e.Held
  | .serve keys false => e.batchBuf = [] ∧ e.Held ∧ ∀ key, e.queue key ≠ [] → key ∈ keys
  | .serve _ true => True
  | .wait => e.batchBuf = [] ∧ e.pending = none ∧ ∀ key, e.queue key = []

structure Egress.Paced (e : Egress) : Prop where
  counted : e.Counted
  atPoint : e.AtPoint e.point

variable {e : Egress}

theorem Egress.AtPoint.of_taking (h : e.AtPoint e.point)
    (hpoint : e.point.Taking) : e.batchBuf = [] ∧ e.Held := by
  cases hpoint' : e.point with
  | drain sduCount | drainAll => rw [hpoint'] at h; exact h
  | top | serve | wait => rw [hpoint'] at hpoint; cases hpoint

theorem atPoint_of_idle {point : EgressPoint} (hpoint : point = .top ∨ point.Taking)
    (hbatch : e.batchBuf = []) (hheld : e.Held) : e.AtPoint point := by
  rcases hpoint with rfl | hpoint
  · exact ⟨hbatch, hheld⟩
  · cases hpoint with
    | drain | drainAll => exact ⟨hbatch, hheld⟩

section
variable (h : e.Counted) (msg : ChannelKey × Bytes)
include h

theorem counted_enqueueMessage : (e.enqueueMessage cfg msg).Counted := by
  unfold enqueueMessage
  dsimp only
  split
  · exact h
  intro key
  simp only [bytesAt, queue, lookup_insert_ite]
  split_ifs
  · have hmsg := h msg.1
    unfold bytesAt queue at hmsg
    simp only [getD_some, map_append, map_cons, map_nil,
      sum_append, sum_cons, sum_nil, Nat.add_zero]
    rw [hmsg]
  · exact h key

/-- A message is held only if its channel has others. -/
theorem held_enqueueMessage : (e.enqueueMessage cfg msg).Held := by
  unfold enqueueMessage
  dsimp only
  split
  · next hfull =>
    rintro m ⟨⟩ (hnil : e.queue msg.1 = [])
    have hbytes := h msg.1
    rw [hnil] at hbytes
    exact absurd hfull.1 (by rw [hbytes]; exact Nat.lt_irrefl 0)
  · exact fun m hm => nomatch hm

theorem counted_kept : e.kept.Counted := by
  intro key
  rw [queue_kept, ← h key]
  unfold kept bytesAt
  rw [lookup_retain]
  have hkey := h key
  unfold bytesAt queue at hkey
  by_cases hempty : e.queues.lookup key = some []
  · rw [hempty] at hkey
    cases hbytes : e.channelBytes.lookup key with
    | none => rfl
    | some bytes =>
    rw [hbytes] at hkey
    simp only [hempty, ne_eq, not_true_eq_false, decide_false, filter_some,
      Bool.false_eq_true, if_false]
    exact hkey.symm
  · cases hbytes : e.channelBytes.lookup key with
    | none => rfl
    | some bytes =>
      simp only [hempty, ne_eq, not_false_eq_true, decide_true]
      rfl

theorem counted_retried : (e.retried cfg).Counted := by
  unfold retried
  split
  · exact counted_enqueueMessage (counted_kept h) _
  · exact counted_kept h

theorem held_retried : (e.retried cfg).Held := by
  unfold retried
  split
  · exact held_enqueueMessage (counted_kept h) _
  · exact fun m hm => nomatch hm

end

theorem length_restQueue (data : Bytes) (queue : List Bytes) :
    ((restQueue cfg data queue).map length).sum =
      data.length - min data.length cfg.sduSize + (queue.map length).sum := by
  unfold restQueue
  split
  · rw [map_cons, sum_cons, length_drop]
  · omega

section Serve
variable {timestamp : Nat} {e : Egress} {key : ChannelKey} {keys : List ChannelKey} {data : Bytes}
  {queue : List Bytes}

theorem counted_serveFront (h : e.Counted) (hqueue : e.queue key = data :: queue) :
    (e.serveFront cfg timestamp key keys data queue).1.Counted := by
  obtain ⟨batchBuf, out, hserve, -⟩ := serveFront_cases cfg timestamp e key keys data queue
  rw [hserve]
  intro key'
  rw [queue_served, bytesAt, served, lookup_insert_ite]
  split_ifs
  · have hbytes := h key
    rw [hqueue, map_cons, sum_cons] at hbytes
    rw [length_restQueue, getD_some, hbytes]
    omega
  · exact h key'

end Serve

variable {e : Egress} {l : Link}

/-- A round without progress has found nothing, and nothing is held after it. -/
theorem endRound_idle (cfg : MuxConfig) (h : e.AtPoint (.serve [] false)) :
    (e.retried cfg).pending = none ∧ ∀ key, (e.retried cfg).queue key = [] := by
  obtain ⟨-, hheld, hkeys⟩ := h
  have hqueues : ∀ key, e.queue key = [] := fun key =>
    Classical.byContradiction fun hne => not_mem_nil (hkeys key hne)
  have hpending : e.pending = none := by
    cases hmsg : e.pending with
    | none => rfl
    | some msg => exact absurd (hqueues msg.1) (hheld msg hmsg)
  unfold retried
  rw [hpending]
  exact ⟨rfl, fun key => (queue_kept e key).trans (hqueues key)⟩

variable {timestamp a b : Nat} {next : Egress × Bytes} {p : Port} {key : ChannelKey}
  {header : SduHeader} {event : Event}

theorem Egress.Moves.paced (hpaced : e.Paced) (h : e.Moves cfg timestamp next) : next.1.Paced := by
  obtain ⟨hcounted, hat⟩ := hpaced
  cases h with
  | begin keys hpoint hkeys =>
    rw [hpoint] at hat
    exact ⟨hcounted, hat.1, hat.2, hkeys⟩
  | pass key keys madeProgress hpoint hqueue =>
    rw [hpoint] at hat
    refine ⟨hcounted, ?_⟩
    cases madeProgress with
    | true => trivial
    | false =>
    refine ⟨hat.1, hat.2.1, fun key' hne => ?_⟩
    rcases mem_cons.1 (hat.2.2 key' hne) with rfl | hmem
    · exact absurd hqueue hne
    · exact hmem
  | serve key keys madeProgress data queue hpoint hqueue =>
    refine ⟨counted_serveFront hcounted hqueue, ?_⟩
    obtain ⟨batchBuf, out, hserve, -⟩ := serveFront_cases cfg timestamp e key keys data queue
    rw [hserve]
    trivial
  | endRound madeProgress hpoint =>
    have hbatch : (e.retried cfg).batchBuf = [] := batchBuf_retried e
    have hheld : (e.retried cfg).Held := held_retried hcounted
    refine ⟨counted_retried hcounted, ?_⟩
    show Egress.AtPoint _ (afterRound madeProgress (e.retried cfg).pending)
    cases madeProgress with
    | true =>
      cases (e.retried cfg).pending with
      | none | some msg => exact ⟨hbatch, hheld⟩
    | false =>
      obtain ⟨hpending, hqueues⟩ := endRound_idle cfg (hpoint ▸ hat)
      rw [hpending]
      exact ⟨hbatch, hpending, hqueues⟩
  | leave hpoint => exact ⟨hcounted, hat.of_taking hpoint⟩
  | take msg rx point hpoint hrx hnext =>
    have hbatch : e.batchBuf = [] := by
      rcases hpoint with hpoint | hpoint
      · rw [hpoint] at hat
        exact hat.1
      · exact (hat.of_taking hpoint.1).1
    have hcounted' : Egress.Counted { e with rx := rx } := hcounted
    refine ⟨counted_enqueueMessage hcounted' msg, atPoint_of_idle hnext ?_ ?_⟩
    · exact (batchBuf_enqueueMessage _ msg).trans hbatch
    · exact held_enqueueMessage hcounted' msg
  | block => exact ⟨hcounted, hat⟩

/-- The steps of the tasks themselves; new messages and the passing of time are not. -/
def Event.Internal : Event → Prop
  | .send _ _ | .sduReadTimeout => False
  | _ => True

/-- No task can do anything. -/
def Link.Quiescent (cfg : MuxConfig) (dec : CborDecoder) (l : Link) : Prop :=
  ∀ event : Event, event.Internal → l.step cfg dec event = l

/-! ## What is still to be done -/

/-- The work on a message in the queue of its channel: each segment has a header of eight bytes, and
each byte goes through the batch, the wire, the queue and the buffer of the receiver. -/
def messageLoad (data : Bytes) : Nat := 37 * data.length + 33

def queueLoad (queue : List Bytes) : Nat := (queue.map messageLoad).sum

def Egress.load (e : Egress) : Nat :=
  (e.rx.map fun msg => messageLoad msg.2 + 2).sum +
    e.pending.elim 0 (fun msg => messageLoad msg.2 + 1) + e.queues.total queueLoad +
    4 * e.batchBuf.length

def IngressPoint.load : IngressPoint → Nat
  | .payload _ => 1
  | _ => 0

def Port.load (p : Port) : Nat :=
  (p.inbox.map fun chunk => 2 * chunk.length + 1).sum + p.reassemblyBuf.length

def Link.load (l : Link) : Nat :=
  l.egress.load + 3 * l.wire.length + l.ingress.load + l.ports.total Port.load

/-- How far the egress loop is from the point where it waits, if there is nothing to send. -/
def EgressPoint.rank : EgressPoint → Nat × Nat
  | .serve keys true => (4, keys.length)
  | .drain _ | .drainAll => (3, 0)
  | .top => (2, 0)
  | .serve keys false => (1, keys.length)
  | .wait => (0, 0)

theorem weightAt_queues (e : Egress) (key : ChannelKey) :
    e.queues.weightAt queueLoad key = queueLoad (e.queue key) := by
  unfold FinMap.weightAt queue
  cases e.queues.lookup key with
  | none | some queue => rfl

/-- A message that is enqueued or held. -/
theorem load_enqueueMessage (hpending : e.pending = none) (msg : ChannelKey × Bytes) :
    (e.enqueueMessage cfg msg).load ≤ e.load + messageLoad msg.2 + 1 := by
  unfold enqueueMessage
  dsimp only
  split
  · unfold load
    rw [hpending]
    simp only [elim_some, elim_none]
    omega
  have htotal := total_insert (f := queueLoad) msg.1 (e.queue msg.1 ++ [msg.2]) e.queues
  have happend : queueLoad (e.queue msg.1 ++ [msg.2]) =
      queueLoad (e.queue msg.1) + messageLoad msg.2 := by
    simp [queueLoad]
  rw [weightAt_queues, happend] at htotal
  unfold load
  simp only [elim_none]
  omega

theorem load_take {msg : ChannelKey × Bytes} {rx : List (ChannelKey × Bytes)}
    (hpending : e.pending = none) (hrx : e.rx = msg :: rx) (point : EgressPoint) :
    (e.take cfg msg rx point).load < e.load := by
  have hle : (e.take cfg msg rx point).load ≤ load { e with rx := rx } + messageLoad msg.2 + 1 :=
    load_enqueueMessage (e := { e with rx := rx }) hpending msg
  have hload : e.load = load { e with rx := rx } + (messageLoad msg.2 + 2) := by
    unfold load
    rw [hrx, map_cons, sum_cons]
    dsimp only
    omega
  omega

theorem load_restQueue (hsdu : 0 < cfg.sduSize) (data : Bytes) (queue : List Bytes) :
    queueLoad (restQueue cfg data queue) + 4 * (8 + min data.length cfg.sduSize) <
      queueLoad (data :: queue) := by
  unfold restQueue queueLoad
  rw [map_cons, sum_cons]
  split
  · rw [map_cons, sum_cons]
    unfold messageLoad
    rw [length_drop]
    omega
  · unfold messageLoad
    omega

/-- A segment costs less than it takes off its message. -/
theorem load_serveFront (hsdu : 0 < cfg.sduSize)
    {keys : List ChannelKey} {data : Bytes} {queue : List Bytes}
    (hqueue : e.queue key = data :: queue) :
    (e.serveFront cfg timestamp key keys data queue).1.load +
        3 * (e.serveFront cfg timestamp key keys data queue).2.length < e.load := by
  obtain ⟨batchBuf, out, hserve, hbytes, hflushed⟩ :=
    serveFront_cases cfg timestamp e key keys data queue
  have hrest := load_restQueue hsdu data queue
  have htotal := total_insert (f := queueLoad) key (restQueue cfg data queue) e.queues
  rw [weightAt_queues, hqueue] at htotal
  have hlength := congrArg length hbytes
  simp only [length_append, length_encodeHeader, length_take, headerSize] at hlength
  rw [hserve]
  unfold served load
  dsimp only
  rcases hflushed with rfl | rfl
  · omega
  · omega

theorem load_kept (e : Egress) :
    e.kept.load + e.pending.elim 0 (fun msg => messageLoad msg.2 + 1) + 4 * e.batchBuf.length =
      e.load := by
  have htotal : e.kept.queues.total queueLoad = e.queues.total queueLoad :=
    total_congr fun key => by rw [weightAt_queues, weightAt_queues, queue_kept]
  have hrx : e.kept.rx = e.rx := rfl
  have hpending : e.kept.pending = none := rfl
  have hbatch : e.kept.batchBuf = [] := rfl
  unfold load
  rw [htotal, hrx, hpending, hbatch]
  simp only [elim_none, length_nil]
  omega

theorem load_retried (e : Egress) : (e.retried cfg).load + 3 * e.batchBuf.length ≤ e.load := by
  have hkept := load_kept e
  unfold retried
  cases hpending : e.pending with
  | none =>
    dsimp only
    omega
  | some msg =>
  rw [hpending] at hkept
  have hle : (e.kept.enqueueMessage cfg msg).load ≤ e.kept.load + messageLoad msg.2 + 1 :=
    load_enqueueMessage (e := e.kept) rfl msg
  dsimp only
  simp only [elim_some] at hkept
  omega

/-- The order of what is still to be done. -/
abbrev Less : Nat × Nat × Nat → Nat × Nat × Nat → Prop :=
  Prod.Lex (· < ·) (Prod.Lex (· < ·) (· < ·))

theorem wellFounded_less : WellFounded Less :=
  WellFounded.prod_lex wellFounded_lt (WellFounded.prod_lex wellFounded_lt wellFounded_lt)

theorem less_of_lt (h : a < b) (x y : Nat × Nat) : Less (a, x) (b, y) := left x y h

theorem less_of_le (h : a ≤ b) {x y : Nat × Nat}
    (hrank : Prod.Lex (· < ·) (· < ·) x y) : Less (a, x) (b, y) := by
  rcases Nat.lt_or_eq_of_le h with h | rfl
  · exact left x y h
  · exact right a hrank

/-- A step of the egress loop that does something leaves less to be done. -/
theorem Egress.Moves.less (hsdu : 0 < cfg.sduSize) (hpaced : e.Paced) (hcalm : e.Calm)
    (h : e.Moves cfg timestamp next)
    (hne : ¬(next = (e, []) ∧ e.point = .wait ∧ e.rx = [])) (n : Nat) :
    Less (next.1.load + 3 * next.2.length + n, next.1.point.rank) (e.load + n, e.point.rank) := by
  cases h with
  | begin keys hpoint =>
    rw [hpoint]
    exact less_of_le (Nat.le_refl _) (left _ _ (by decide))
  | pass key keys madeProgress hpoint =>
    rw [hpoint]
    refine less_of_le (Nat.le_refl _) ?_
    cases madeProgress with
    | true | false => exact right _ (Nat.lt_succ_self _)
  | serve key keys madeProgress data queue hpoint hqueue =>
    have hload := @load_serveFront cfg e timestamp key hsdu keys data queue hqueue
    exact less_of_lt (by omega) _ _
  | endRound madeProgress hpoint =>
    have hload : (e.retried cfg).load + 3 * e.batchBuf.length ≤ e.load := load_retried e
    refine less_of_le (Nat.add_le_add_right hload n) ?_
    show Prod.Lex _ _ (afterRound madeProgress (e.retried cfg).pending).rank _
    rw [hpoint]
    cases madeProgress with
    | true =>
      cases (e.retried cfg).pending with
      | none | some msg => exact left _ _ (by decide)
    | false =>
      rw [(endRound_idle cfg (hpoint ▸ hpaced.atPoint)).1]
      exact left _ _ (by decide)
  | leave hpoint =>
    refine less_of_le (Nat.le_refl _) ?_
    cases hpoint' : e.point with
    | drain | drainAll => exact left _ _ (by decide)
    | top | serve | wait => rw [hpoint'] at hpoint; cases hpoint
  | take msg rx point hpoint hrx =>
    have hpending := hpoint.elim hcalm And.right
    have hload : (e.take cfg msg rx point).load < e.load := load_take hpending hrx point
    exact less_of_lt (Nat.add_lt_add_right hload n) _ _
  | block hpoint hrx => exact absurd ⟨rfl, hpoint, hrx⟩ hne

theorem load_takeChunk {chunk : Bytes} {inbox : List Bytes}
    (hinbox : p.inbox = chunk :: inbox) (protocolId : Nat) :
    (p.takeChunk protocolId chunk inbox).load < p.load := by
  unfold Port.takeChunk Port.load
  rw [hinbox, map_cons, sum_cons]
  dsimp only
  rw [length_append]
  omega

theorem load_returnMessage {boundary : Nat}
    (hboundary : tryDecodeCborBoundary M.toCborDecoder p.reassemblyBuf = some boundary) :
    (p.returnMessage boundary).load < p.load := by
  have hpos : 0 < boundary := M.detector.pos hboundary
  have hle := (M.detector.stable hboundary).1
  unfold Port.returnMessage Port.load
  dsimp only
  rw [length_drop]
  omega

theorem load_recv (p : Port) (protocolId : Nat) : (p.recv M.toCborDecoder protocolId = p ∧
      tryDecodeCborBoundary M.toCborDecoder p.reassemblyBuf = none ∧ p.inbox = []) ∨
      (p.recv M.toCborDecoder protocolId).load < p.load := by
  unfold Port.recv
  split
  · next hboundary => exact .inr (load_returnMessage hboundary)
  · next hinbox => exact .inr (load_takeChunk hinbox protocolId)
  · next hboundary hinbox => exact .inl ⟨rfl, hboundary, hinbox⟩

theorem load_tryRecv (p : Port) (protocolId : Nat) : p.tryRecv M.toCborDecoder protocolId = p ∨
      (p.tryRecv M.toCborDecoder protocolId).load < p.load := by
  unfold Port.tryRecv
  split
  · next hinbox => exact .inr (load_takeChunk hinbox protocolId)
  · next hboundary => exact .inr (load_returnMessage hboundary)
  · exact .inl rfl

theorem load_deliver {p' : Port} {protocolId : Nat} {payload : Bytes}
    (h : p.deliver cfg protocolId payload = .ok p') :
    p'.load < p.load + 3 * payload.length + 1 := by
  unfold Port.deliver at h
  split at h
  · cases h
    omega
  next hempty =>
  dsimp only at h
  split at h
  · cases h
  cases h
  have hpos := length_pos_iff.2 (mt isEmpty_iff.2 hempty)
  unfold Port.load
  rw [map_append, sum_append, map_cons, map_nil, sum_cons, sum_nil]
  dsimp only
  omega

def Link.todo (l : Link) : Nat × Nat × Nat := (l.load, l.egress.point.rank)

theorem less_onPort {call : Nat → Port → Port}
    (hcall : ∀ p id, call id p = p ∨ (call id p).load < p.load)
    (hne : l.onPort key call ≠ l) : Less (l.onPort key call).todo l.todo := by
  unfold Link.onPort at hne ⊢
  cases hport : l.ports.lookup key with
  | none => rw [hport] at hne; exact absurd rfl hne
  | some port =>
  rw [hport] at hne
  dsimp only at hne ⊢
  rcases hcall port key.1 with hsame | hload
  · refine absurd ?_ hne
    have hports : l.ports.insert key port = l.ports := by
      refine Finmap.ext_lookup fun key' => ?_
      rw [lookup_insert_ite]
      split
      · next heq => rw [heq, hport]
      · rfl
    rw [hsame, hports]
  · have htotal := total_insert (f := Port.load) key (call key.1 port) l.ports
    have hweight : l.ports.weightAt Port.load key = port.load := by
      rw [FinMap.weightAt, hport]
      rfl
    refine less_of_lt ?_ _ _
    unfold Link.load
    dsimp only
    omega

theorem load_header (hingress : l.ingress = .header) (hlong : ¬l.wire.length < headerSize) :
    (l.ingressStep cfg).load < l.load := by
  have hpoint : ∀ point : IngressPoint, point.load ≤ 1 := by
    intro point
    cases point with
    | header | failed e => exact Nat.zero_le 1
    | payload header => exact Nat.le_refl 1
  unfold Link.ingressStep
  rw [hingress]
  dsimp only
  rw [if_neg hlong]
  unfold Link.load
  dsimp only
  rw [length_drop]
  have hsize : headerSize = 8 := rfl
  refine lt_of_le_of_lt (Nat.add_le_add_right (Nat.add_le_add_left (hpoint _) _) _) ?_
  omega

theorem load_payload (hingress : l.ingress = .payload header)
    (hlong : ¬l.wire.length < header.payloadLength) : (l.ingressStep cfg).load < l.load := by
  unfold Link.ingressStep
  rw [hingress]
  dsimp only
  rw [if_neg hlong]
  unfold Link.load
  rw [hingress]
  dsimp only [IngressPoint.load]
  have hdrop := length_drop (i := header.payloadLength) (l := l.wire)
  cases hport : l.ports.lookup (header.protocolId, header.direction.flip) with
  | none =>
    dsimp only [IngressPoint.load]
    omega
  | some port =>
    dsimp only
    cases hdeliver : port.deliver cfg header.protocolId (l.wire.take header.payloadLength) with
    | error e =>
      dsimp only [IngressPoint.load]
      omega
    | ok port' =>
      have hload := load_deliver hdeliver
      rw [length_take] at hload
      have htotal := total_insert (f := Port.load)
        (header.protocolId, header.direction.flip) port' l.ports
      have hweight : l.ports.weightAt Port.load (header.protocolId, header.direction.flip) =
          port.load := by
        rw [FinMap.weightAt, hport]
        rfl
      dsimp only [IngressPoint.load]
      omega

theorem less_step (hsdu : 0 < cfg.sduSize) (hpaced : l.egress.Paced)
    (hcalm : l.egress.Calm) (hevent : event.Internal) (hne : l.step cfg M.toCborDecoder event ≠ l) :
    Less (l.step cfg M.toCborDecoder event).todo l.todo := by
  cases event with
  | send | sduReadTimeout => exact hevent.elim
  | egress order timestamp =>
    have hmoves := moves_step cfg order timestamp l.egress
    have hstep : l.egress.step cfg order timestamp ≠ (l.egress, []) := by
      intro heq
      refine hne ?_
      unfold Link.step
      dsimp only
      rw [heq, append_nil]
    have hless := hmoves.less hsdu hpaced hcalm (fun hrest => hstep hrest.1)
      (3 * l.wire.length + l.ingress.load + l.ports.total Port.load)
    have hload : (l.step cfg M.toCborDecoder (.egress order timestamp)).load =
        (l.egress.step cfg order timestamp).1.load +
          3 * (l.egress.step cfg order timestamp).2.length +
          (3 * l.wire.length + l.ingress.load + l.ports.total Port.load) := by
      unfold Link.step Link.load
      dsimp only
      rw [length_append]
      omega
    have hload' : l.load = l.egress.load +
        (3 * l.wire.length + l.ingress.load + l.ports.total Port.load) := by
      unfold Link.load
      omega
    unfold Link.todo
    rw [hload, hload']
    exact hless
  | ingress =>
    have hstep : (l.ingressStep cfg).load < l.load := by
      by_contra hload
      refine hne ?_
      show l.ingressStep cfg = l
      unfold Link.ingressStep
      split
      · next hingress => exact if_pos (not_not.1 fun hlong => hload (load_header hingress hlong))
      · next hingress => exact if_pos (not_not.1 fun hlong => hload (load_payload hingress hlong))
      · rfl
    exact less_of_lt hstep _ _
  | recv key => exact less_onPort (fun p id => (load_recv p id).imp_left And.left) hne
  | tryRecv key => exact less_onPort load_tryRecv hne

/-! ## Rest -/

/-- The egress loop rests only where it waits for a message. -/
theorem Egress.Moves.rest (hsdu : 0 < cfg.sduSize) (hpaced : e.Paced) (hcalm : e.Calm)
    (h : e.Moves cfg timestamp (e, [])) : e.point = .wait ∧ e.rx = [] := by
  by_contra hne
  exact wellFounded_less.irrefl.irrefl _ (h.less hsdu hpaced hcalm (fun hrest => hne hrest.2) 0)

theorem stream_of_rest (hpaced : e.Paced) (hpoint : e.point = .wait)
    (hrx : e.rx = []) : e.batchBuf = [] ∧ ∀ key, e.stream key = [] := by
  have hat := hpaced.atPoint
  rw [hpoint] at hat
  obtain ⟨hbatch, hpending, hqueues⟩ := hat
  refine ⟨hbatch, fun key => ?_⟩
  rw [stream, hqueues, hpending, hrx]
  rfl

theorem length_encode_ge (sdu : Sdu) : headerSize ≤ sdu.encode.length := by
  rw [Sdu.encode, length_append, length_encodeHeader]
  exact Nat.le_add_right _ _

/-- The ingress loop rests only on an empty wire. -/
theorem onWire_of_rest {sdus : List Sdu} (hwire : OnWire l.ingress l.wire sdus)
    (hrest : l.ingressStep cfg = l) : sdus = [] := by
  cases hingress : l.ingress with
  | failed e => rw [hingress] at hwire; cases hwire
  | payload header =>
    obtain ⟨sdu, rest, -, -, hlength, hbytes⟩ := OnWire.of_payload (hingress ▸ hwire)
    have hlong : ¬l.wire.length < header.payloadLength := by
      rw [hbytes, length_append, hlength]
      omega
    exact absurd (congrArg Link.load hrest) (load_payload hingress hlong).ne
  | header =>
    cases sdus with
    | nil => rfl
    | cons sdu sdus =>
    have hbytes := OnWire.of_header (hingress ▸ hwire)
    have hlong : headerSize ≤ l.wire.length := by
      rw [hbytes, flatMap_cons, length_append]
      exact (length_encode_ge sdu).trans (Nat.le_add_right _ _)
    exact absurd (congrArg Link.load hrest) (load_header hingress (not_lt.2 hlong)).ne

theorem port_of_rest {port : Port} (hport : l.ports.lookup key = some port)
    (hrest : l.onPort key (Port.recv M.toCborDecoder) = l) :
    tryDecodeCborBoundary M.toCborDecoder port.reassemblyBuf = none ∧ port.inbox = [] := by
  have hlookup := congrArg (fun l : Link => l.ports.lookup key) hrest
  unfold Link.onPort at hlookup
  rw [hport] at hlookup
  rw [Finmap.lookup_insert, some.injEq] at hlookup
  refine (load_recv port key.1).elim And.right fun hless => ?_
  rw [hlookup] at hless
  exact absurd hless (lt_irrefl _)

/-- When no task can do anything, every message has been received. -/
theorem received_of_quiescent (hsdu : 0 < cfg.sduSize) (h : l.Invariant chan M)
    (hpaced : l.egress.Paced) (hquiet : l.Quiescent cfg M.toCborDecoder) (halive : ∀ e, l.ingress ≠ .failed e)
    (hkey : chan key) :
    ∃ port, l.ports.lookup (flipKey key) = some port ∧ port.received = pieces key l.sent := by
  obtain ⟨rest, hcarries, hflow⟩ := h
  obtain ⟨wire, batch, hflows⟩ := flows_of_not_failed hflow halive
  -- the egress task waits, so everything is on the wire; the wire is empty, so all has arrived
  have hegress : l.egress.point = .wait ∧ l.egress.rx = [] := by
    have hstep := hquiet (.egress (Listing.Enumeration.startingWith key) 0) trivial
    have hmoves := moves_step cfg (Listing.Enumeration.startingWith key) 0 l.egress
    have hrest : l.egress.step cfg (Listing.Enumeration.startingWith key) 0 = (l.egress, []) :=
      Prod.ext (congrArg Link.egress hstep)
        (append_cancel_left ((congrArg Link.wire hstep).trans (append_nil _).symm))
    exact (hrest ▸ hmoves).rest hsdu hpaced hcarries.calm
  obtain ⟨hbatchBuf, hstream⟩ := stream_of_rest hpaced hegress.1 hegress.2
  have hwire : wire = [] := onWire_of_rest hflows.onWire (hquiet .ingress trivial)
  have hbatch : batch = [] := by
    cases batch with
    | nil => rfl
    | cons sdu batch =>
    have hlength := congrArg length (hflows.batchBuf.symm.trans hbatchBuf)
    rw [flatMap_cons, length_append] at hlength
    have hge := length_encode_ge sdu
    have hpos : 0 < headerSize := by decide
    simp only [length_nil] at hlength
    omega
  have hnothing : rest key = [] := by rw [hflows.rest, hwire, hbatch, hstream]; rfl
  obtain ⟨port, hport, left, hsent, hleft⟩ := hcarries.ports key hkey
  obtain ⟨hboundary, hinbox⟩ := port_of_rest hport (hquiet (.recv (flipKey key)) trivial)
  rw [hnothing, hinbox, flatten_nil, append_nil, append_nil] at hleft
  have hleftItems : ∀ m ∈ left, M.detector.Item m := fun m hm =>
    pieces_sent_items hcarries key m (hsent ▸ mem_append_right _ hm)
  have hnil : left = [] :=
    Detector.eq_nil_of_boundary_none (D := M.detector) hleftItems (hleft ▸ hboundary)
  refine ⟨port, hport, ?_⟩
  rw [hsent, hnil, append_nil]

/-! ## The multiplexer as a whole -/

/-- A task does something. -/
def Acts (cfg : MuxConfig) (dec : CborDecoder) (l' l : Link) : Prop :=
  ∃ event : Event, event.Internal ∧ l' = l.step cfg dec event ∧ l' ≠ l

theorem paced_step (h : l.egress.Paced) (event : Event) :
    (l.step cfg M.toCborDecoder event).egress.Paced := by
  have hport : ∀ key call, (l.onPort key call).egress = l.egress := by
    intro key call
    unfold Link.onPort
    split <;> rfl
  have hingress : (l.ingressStep cfg).egress = l.egress := by
    unfold Link.ingressStep
    dsimp only
    repeat' split
    all_goals rfl
  cases event with
  | send key msg =>
    unfold Link.step
    dsimp only
    split
    · exact { h with }
    · exact h
  | egress order timestamp => exact (moves_step cfg order timestamp l.egress).paced h
  | ingress =>
    show (l.ingressStep cfg).egress.Paced
    rw [hingress]
    exact h
  | sduReadTimeout =>
    unfold Link.step
    dsimp only
    split
    · split <;> exact h
    · exact h
  | recv key | tryRecv key =>
    show (l.onPort key _).egress.Paced
    rw [hport]
    exact h

theorem paced_start (limits : FinMap ChannelKey Nat) : (Link.start limits).egress.Paced := by
  refine ⟨fun key => ?_, rfl, fun msg hmsg => nomatch hmsg⟩
  unfold bytesAt queue Link.start
  rfl

theorem Event.Internal.proper (h : event.Internal) : event.Proper chan M := by
  cases event with
  | send => exact h.elim
  | _ => trivial

/-- Every schedule of the tasks comes to rest. -/
theorem acc_acts (hchan : Routable chan) (hsdu : 0 < cfg.sduSize) (hsdu' : cfg.sduSize < 2 ^ 16)
    (h : l.Invariant chan M) (hpaced : l.egress.Paced) :
    Acc (Acts cfg M.toCborDecoder) l := by
  have hrec : ∀ todo, Acc Less todo → ∀ l, l.todo = todo →
      l.Invariant chan M → l.egress.Paced → Acc (Acts cfg M.toCborDecoder) l := by
    intro todo htodo
    induction htodo with
    | intro todo _ ih =>
      intro l hl h hpaced
      refine ⟨_, fun l' hacts => ?_⟩
      obtain ⟨event, hevent, rfl, hne⟩ := hacts
      obtain ⟨rest, hcarries, -⟩ := id h
      have hless := hl ▸ less_step hsdu hpaced hcarries.calm hevent hne
      exact ih _ hless _ rfl (invariant_step hchan hsdu' h hevent.proper) (paced_step hpaced event)
  exact hrec l.todo (wellFounded_less.apply _) l rfl h hpaced

theorem returned_eq_map {returned : List (Except MuxError Bytes)} (h : ∀ e, .error e ∉ returned) :
    returned = (returned.filterMap Except.toOption).map .ok := by
  induction returned with
  | nil => rfl
  | cons result returned ih =>
    cases result with
    | error e => exact absurd mem_cons_self (h e)
    | ok msg =>
      have hrest := ih fun e he => h e (mem_cons_of_mem _ he)
      exact congrArg (Except.ok msg :: ·) hrest

/-- In every state of every run the byte counters of the egress loop are exact, and the loop waits
for messages only when none is queued, held back or batched. -/
theorem egress_waits_empty (M : LocalDecoder) (cfg : MuxConfig) (limits : FinMap ChannelKey Nat)
    (events : List Event) :
    let e := ((Link.start limits).run cfg M.toCborDecoder events).egress
    (∀ key, e.bytesAt key = ((e.queue key).map length).sum) ∧
      (e.point = .wait → e.batchBuf = [] ∧ e.pending = none ∧ ∀ key, e.queue key = []) := by
  intro e
  have hpaced : e.Paced :=
    foldlRecOn (motive := fun l : Link => l.egress.Paced) events _ (paced_start limits)
      fun _ h event _ => paced_step h event
  refine ⟨hpaced.counted, fun hwait => ?_⟩
  have hat := hpaced.atPoint
  rwa [hwait] at hat

/-- What the calls on a channel return is a beginning of what was sent on it. Only a limit ends the
connection. When the tasks have come to rest, which they do after finitely many steps, and no limit
was met, it is exactly what was sent. -/
theorem mux_delivers (M : LocalDecoder) (cfg : MuxConfig)
    (hsdu : 1 ≤ cfg.sduSize ∧ cfg.sduSize ≤ 65535) (limits : FinMap ChannelKey Nat)
    (events : List Event) (hsends : ∀ key msg, .send key msg ∈ events → Channel limits key ∧
      tryDecodeCborBoundary M.toCborDecoder msg = some msg.length) :
    (∀ e, ((Link.start limits).run cfg M.toCborDecoder events).ingress = .failed e → e.IsLimit) ∧
    (∀ key, Channel limits key → ∃ port,
      ((Link.start limits).run cfg M.toCborDecoder events).ports.lookup (flipKey key) =
        some port ∧
      port.received <+: pieces key ((Link.start limits).run cfg M.toCborDecoder events).sent ∧
      (((Link.start limits).run cfg M.toCborDecoder events).Quiescent cfg M.toCborDecoder →
        (∀ e, ((Link.start limits).run cfg M.toCborDecoder events).ingress ≠ .failed e) →
        (∀ e, .error e ∉ port.returned) →
        port.returned =
          (pieces key ((Link.start limits).run cfg M.toCborDecoder events).sent).map .ok)) ∧
    Acc (Acts cfg M.toCborDecoder) ((Link.start limits).run cfg M.toCborDecoder events) := by
  have hsize : cfg.sduSize < 2 ^ 16 := Nat.lt_of_le_of_lt hsdu.2 (by decide)
  have hproper : ∀ event ∈ events, event.Proper (Channel limits) M := by
    intro event hevent
    cases event with
    | send key msg => exact hsends key msg hevent
    | _ => trivial
  have hinv : ((Link.start limits).run cfg M.toCborDecoder events).Invariant (Channel limits) M :=
    foldlRecOn events _ (invariant_start M limits) fun _ h event hevent =>
      invariant_step (routable_channel limits) hsize h (hproper event hevent)
  have hpaced : ((Link.start limits).run cfg M.toCborDecoder events).egress.Paced :=
    foldlRecOn (motive := fun l : Link => l.egress.Paced) events _ (paced_start limits)
      fun _ h event _ => paced_step h event
  generalize (Link.start limits).run cfg M.toCborDecoder events = l at hinv hpaced ⊢
  refine ⟨fun e he => ?_, fun key hkey => ?_, ?_⟩
  · obtain ⟨rest, -, ⟨e', he', hlimit⟩ | ⟨wire, batch, hflows⟩⟩ := hinv
    · rw [he] at he'
      cases he'
      exact hlimit
    · have hwire := hflows.onWire
      rw [he] at hwire
      cases hwire
  · obtain ⟨rest, hcarries, -⟩ := id hinv
    obtain ⟨port, hport, hholds⟩ := hcarries.ports key hkey
    refine ⟨port, hport, hholds.isPrefix, fun hquiet halive herror => ?_⟩
    obtain ⟨port', hport', hreceived⟩ := received_of_quiescent hsdu.1 hinv hpaced hquiet halive hkey
    rw [hport] at hport'
    cases hport'
    rw [← hreceived]
    exact returned_eq_map herror
  · exact acc_acts (routable_channel limits) hsdu.1 hsize hinv hpaced

/-! ## Examples -/

/-- The channels by number, the initiator's first. -/
def channelNumber (key : ChannelKey) : Nat :=
  2 * key.1 + match key.2 with
    | .initiatorDir => 0
    | .responderDir => 1

theorem channelNumber_injective : Function.Injective channelNumber := by
  rintro ⟨id, direction⟩ ⟨id', direction'⟩ h
  unfold channelNumber at h
  cases direction with
  | initiatorDir | responderDir =>
    cases direction' with
    | initiatorDir | responderDir =>
      dsimp only at h
      first
        | omega
        | rw [show id = id' by omega]

def egressSteps (n : Nat) : List Event :=
  replicate n (.egress (.sorted channelNumber channelNumber_injective) 0)

variable (protocolId : Nat)

/-- A message of one byte on the initiator's channel of a protocol, and time for the egress task to
write it and for the ingress task to read its header and its payload. -/
def singleSend : List Event :=
  .send (protocolId, .initiatorDir) [0] :: (egressSteps 8 ++ [.ingress, .ingress])

/-- A connection whose far side has subscribed the protocol. -/
def subscribed : FinMap ChannelKey Nat :=
  (∅ : FinMap ChannelKey Nat).insert (protocolId, .responderDir) 100

/-- The same, with the read timeout after the header. -/
def lateSend : Link :=
  (Link.start (subscribed 2)).run (MuxConfig.standard 1 1) smallLocalDecoder.toCborDecoder
    (.send (2, .initiatorDir) [0] :: (egressSteps 8 ++ [.ingress, .sduReadTimeout]))

def runSingle : Link :=
  (Link.start (subscribed protocolId)).run (MuxConfig.standard 1 1) smallLocalDecoder.toCborDecoder
    (singleSend protocolId)

/-- Messages of three bytes on two channels, to be cut into SDUs of two bytes. -/
def crossing : List Event :=
  [.send (2, .initiatorDir) [0x82, 7, 8], .send (3, .initiatorDir) [0x82, 0, 1]] ++
    egressSteps 20 ++ replicate 8 .ingress ++
    (replicate 4 [.recv (2, .responderDir), .recv (3, .responderDir)]).flatten

def runCrossing : Link :=
  (Link.start ((subscribed 2).insert (3, .responderDir) 100)).run (MuxConfig.standard 2 1)
    smallLocalDecoder.toCborDecoder crossing

/-- Both messages arrive whole, each on its channel. -/
theorem crossing_delivered :
    (runCrossing.ports.lookup (2, .responderDir)).map Port.received = some [[0x82, 7, 8]] ∧
      (runCrossing.ports.lookup (3, .responderDir)).map Port.received = some [[0x82, 0, 1]] ∧
      ∀ id ∈ [2, 3], ∃ port, runCrossing.ports.lookup (id, .responderDir) = some port ∧
        port.received <+: pieces (id, .initiatorDir) runCrossing.sent := by
  have hchannel : ∀ id ∈ [2, 3],
      Channel ((subscribed 2).insert (3, .responderDir) 100) (id, .initiatorDir) := by
    intro id hid
    rcases mem_pair.1 hid with rfl | rfl <;> exact ⟨by decide, by decide, by decide +kernel⟩
  have hsends : ∀ key msg, Event.send key msg ∈ crossing →
      Channel ((subscribed 2).insert (3, .responderDir) 100) key ∧
        tryDecodeCborBoundary smallLocalDecoder.toCborDecoder msg = some msg.length := by
    intro key msg hmem
    have hsend : Event.send key msg = .send (2, .initiatorDir) [0x82, 7, 8] ∨
        Event.send key msg = .send (3, .initiatorDir) [0x82, 0, 1] := by
      simpa [crossing, egressSteps] using hmem
    rcases hsend with hsend | hsend
    · cases hsend
      exact ⟨hchannel 2 (by decide), by decide +kernel⟩
    · cases hsend
      exact ⟨hchannel 3 (by decide), by decide +kernel⟩
  obtain ⟨-, hports, -⟩ := mux_delivers smallLocalDecoder (MuxConfig.standard 2 1)
    ⟨by decide, by decide⟩ ((subscribed 2).insert (3, .responderDir) 100) crossing hsends
  refine ⟨by decide +kernel, by decide +kernel, fun id hid => ?_⟩
  obtain ⟨port, hport, hreceived, -⟩ := hports (id, .initiatorDir) (hchannel id hid)
  exact ⟨port, hport, hreceived⟩

/-- The other end of a subscribed channel ends the connection: its number is the reserved one, the
header has no room for it, or the payload of an SDU does not come in time. -/
theorem number_not_routed :
    (runSingle 1).ingress = .failed (.invalidHeader 1 1) ∧
      (runSingle 0x8002).ingress = .failed (.unknownProtocol 2) ∧
      tryDecodeCborBoundary smallLocalDecoder.toCborDecoder [0] = some 1 ∧
      ((runSingle 1).ports.lookup (1, .responderDir)).map Port.received = some [] ∧
      ((runSingle 0x8002).ports.lookup (0x8002, .responderDir)).map Port.received = some [] ∧
      lateSend.ingress = .failed .sduReadTimeout ∧
      (lateSend.ports.lookup (2, .responderDir)).map Port.received = some [] := by
  decide +kernel

end Dugite.Mux
