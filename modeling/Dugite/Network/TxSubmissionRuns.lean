import Dugite.Network.TxSubmission

/-!
# Sessions of the transaction submission

A session is sound while it has not ended in a violation and every body went to `on_tx` under the id
it was announced with. `sound_iff_safeRun` says for which developments of the client's mempool a
session is sound throughout.

Two things decide it. When the server asks for bodies, the client leaves out those it no longer has,
and the server takes the first body of the reply for the first id of its request, and so on. So what
is missing must be at the end of the request (`Deliverable`). And an id whose body was left out
stays in flight for the rest of the session, so there is room for only so many of them.
-/

namespace Dugite.TxSubmission

open List Session Option Receiver Server Nat

variable {r : Receiver}

/-! ## What is announced -/

section Client
variable {canonicalId : Bytes → Option Hash32} {view : MempoolView canonicalId}

theorem length_yieldNew_le (maxCount : Nat) (hashes : List Hash32) (source : MempoolTxSource)
    {result : List TxIdAndSize} (h : result.length ≤ maxCount) :
    (yieldNew view maxCount hashes source result).2.length ≤ maxCount := by
  induction hashes generalizing source result with
  | nil => exact h
  | cons hash hashes ih =>
    unfold yieldNew
    split
    · exact h
    next hroom =>
    split
    · exact ih source h
    cases view.queryTxSize hash with
    | none => exact ih source h
    | some size =>
      refine ih _ ?_
      rw [length_append, length_singleton]
      omega

/-- The bodies that the client sends for a request, each with its id. -/
def sent (view : MempoolView canonicalId) (toFetch : List TxIdAndSize) : List (Hash32 × Bytes) :=
  toFetch.filterMap fun id => (view.queryTxCbor id.txId).map fun cbor => (id.txId, cbor)

variable {toFetch : List TxIdAndSize} {id : TxIdAndSize} {cbor : Bytes}

theorem sent_cons_of_some (h : view.queryTxCbor id.txId = some cbor) :
    sent view (id :: toFetch) = (id.txId, cbor) :: sent view toFetch := by
  simp only [sent, filterMap_cons, h, map_some]

theorem sent_cons_of_none
    (h : view.queryTxCbor id.txId = none) : sent view (id :: toFetch) = sent view toFetch := by
  simp only [sent, filterMap_cons, h, map_none]

theorem getTxs_eq_sent (toFetch : List TxIdAndSize) :
    (getTxs view (toFetch.map fun id => (id.eraId, id.txId))).map (·.2) =
      (sent view toFetch).map (·.2) := by
  simp only [getTxs, sent, filterMap_map, map_filterMap, Function.comp_apply,
    Option.map_map, Function.comp_def]

theorem sentIds_eq_sent (toFetch : List TxIdAndSize) :
    sentIds view (.requestTxs (toFetch.map fun id => (id.eraId, id.txId))) =
      (sent view toFetch).map (·.1) := by
  induction toFetch with
  | nil => rfl
  | cons id toFetch ih =>
    simp only [sentIds, map_cons, filter_cons] at ih ⊢
    cases h : view.queryTxCbor id.txId with
    | none => rw [sent_cons_of_none h, ← ih]; rfl
    | some cbor => rw [sent_cons_of_some h, map_cons, ← ih]; rfl

/-- The bodies that a request can still get are those of its first ids, and none of them is larger
than was advertised. -/
def Deliverable (view : MempoolView canonicalId) (toFetch : List TxIdAndSize) : Prop :=
  ∃ kept missing, toFetch = kept ++ missing ∧
    (∀ id ∈ kept, ∃ cbor, view.queryTxCbor id.txId = some cbor ∧ cbor.length ≤ id.sizeInBytes) ∧
    ∀ id ∈ missing, view.queryTxCbor id.txId = none

theorem deliverable_cons_of_some (h : view.queryTxCbor id.txId = some cbor) :
    Deliverable view (id :: toFetch) ↔ cbor.length ≤ id.sizeInBytes ∧ Deliverable view toFetch := by
  constructor
  · rintro ⟨kept, missing, heq, hkept, hmissing⟩
    cases kept with
    | nil =>
      rw [nil_append] at heq
      have hnone := hmissing id (heq ▸ mem_cons_self)
      rw [h] at hnone
      cases hnone
    | cons first kept =>
    obtain ⟨rfl, rfl⟩ := cons.inj heq
    obtain ⟨cbor', hcbor', hlength⟩ := hkept id mem_cons_self
    rw [h] at hcbor'
    cases hcbor'
    exact ⟨hlength, kept, missing, rfl, fun x hx => hkept x (mem_cons_of_mem _ hx), hmissing⟩
  · rintro ⟨hlength, kept, missing, rfl, hkept, hmissing⟩
    refine ⟨id :: kept, missing, rfl, ?_, hmissing⟩
    rintro x (_ | ⟨_, hx⟩)
    · exact ⟨cbor, h, hlength⟩
    · exact hkept x hx

theorem deliverable_cons_of_none (h : view.queryTxCbor id.txId = none) :
    Deliverable view (id :: toFetch) ↔ sent view toFetch = [] := by
  simp only [sent, filterMap_eq_nil_iff, map_eq_none_iff]
  constructor
  · rintro ⟨kept, missing, heq, hkept, hmissing⟩
    cases kept with
    | nil =>
      rw [nil_append] at heq
      exact fun x hx => hmissing x (heq ▸ mem_cons_of_mem _ hx)
    | cons first kept =>
    obtain ⟨rfl, -⟩ := cons.inj heq
    obtain ⟨cbor, hcbor, -⟩ := hkept id mem_cons_self
    rw [h] at hcbor
    cases hcbor
  · intro hnone
    refine ⟨[], id :: toFetch, rfl, fun x hx => absurd hx not_mem_nil, ?_⟩
    rintro x (_ | ⟨_, hx⟩)
    · exact h
    · exact hnone x hx

end Client

/-! ## The server's reactions -/

theorem track_snd (ids : List TxIdAndSize) (inflight : Finset Hash32) :
    (track ids inflight).2 = inflight ∪ (ids.map (·.txId)).toFinset := by
  induction ids generalizing inflight with
  | nil => simp [track]
  | cons id ids ih =>
    unfold track
    split
    · next hmem =>
      rw [ih, map_cons, toFinset_cons, Finset.union_insert,
        Finset.insert_eq_of_mem (Finset.mem_union_left _ hmem)]
    · rw [ih, map_cons, toFinset_cons, Finset.union_insert, Finset.insert_union]

/-- The request is the one that the server waits for an answer to, and an answer within what was
requested leaves the unacknowledged ids within their limit. -/
structure Linked (limits : Limits) (server : Server) (request : TxSubmissionMessage) : Prop where
  unacked : server.unacked.length ≤ limits.maxUnacked
  inflight : server.inflight.card ≤ limits.maxInflightTxIds
  awaited : match server.awaited with
    | .init => False
    | .txIds blocking reqCount => (∃ ackCount, request = .requestTxIds blocking ackCount reqCount) ∧
        server.unacked.length + reqCount ≤ limits.maxUnacked
    | .txs toFetch => request = .requestTxs (toFetch.map fun id => (id.eraId, id.txId))

variable {server : Server} {blocking : Bool} {reqCount : Nat} {ids toFetch : List TxIdAndSize}
  {s : Session} {limits : Limits} {cbor : Bytes} {inflight : Finset Hash32}

theorem linked_requestMore (hunacked : server.unacked.length ≤ limits.maxUnacked)
    (hinflight : server.inflight.card ≤ limits.maxInflightTxIds) :
    Linked limits (server.requestMore limits).1 (server.requestMore limits).2 := by
  have hle : (server.unacked.drop (min server.unacked.length 65535)).length ≤
      server.unacked.length := by
    rw [length_drop]
    omega
  refine ⟨hle.trans hunacked, hinflight, ⟨_, rfl⟩, ?_⟩
  show (server.unacked.drop _).length + min ((limits.maxUnacked - _) % 65536) _ ≤ _
  omega

/-- The reply goes on with a request exactly if there is room for the ids in flight. -/
def Answered (limits : Limits) (inflight : Finset Hash32) :
    Except ProtocolError (Option (Server × TxSubmissionMessage)) → Prop
  | .error _ => limits.maxInflightTxIds < inflight.card
  | .ok none => False
  | .ok (some (server, request)) =>
    inflight.card ≤ limits.maxInflightTxIds ∧ Linked limits server request

/-- A reply within what was requested passes the first two checks. -/
theorem answered_onReplyTxIds (blocking : Bool) (hids : ids.length ≤ reqCount)
    (hroom : server.unacked.length + reqCount ≤ limits.maxUnacked)
    (hinflight : server.inflight.card ≤ limits.maxInflightTxIds) :
    Answered limits (server.inflight ∪ (ids.map (·.txId)).toFinset)
      (server.onReplyTxIds limits blocking reqCount ids) := by
  have hmore : (server.unacked ++ ids).length ≤ limits.maxUnacked := by
    rw [length_append]
    omega
  unfold onReplyTxIds
  rw [if_neg (not_lt.2 hids),
    if_neg (show ¬server.unacked.length + ids.length > limits.maxUnacked by omega)]
  dsimp only
  rw [track_snd]
  split
  · next hempty =>
    obtain ⟨hnil, -⟩ := Bool.and_eq_true_iff.1 hempty
    rw [isEmpty_iff.1 hnil]
    exact ⟨by simpa using hinflight, linked_requestMore (by omega) hinflight⟩
  split
  · next hover => exact hover
  next hover =>
  have hfits := not_lt.1 hover
  split
  · exact ⟨hfits, linked_requestMore hmore hfits⟩
  · exact ⟨hfits, hmore, hfits, rfl⟩

theorem Answered.not_error_iff {next : Except ProtocolError (Option (Server × TxSubmissionMessage))}
    (h : Answered limits inflight next) :
    (∀ e, next ≠ .error e) ↔ inflight.card ≤ limits.maxInflightTxIds := by
  match next, h with
  | .error e, h => exact iff_of_false (fun hne => hne e rfl) (not_le.2 h)
  | .ok (some _), h => exact iff_of_true (fun _ => nofun) h.1

/-- A body is convicted if it is looked at and has another id. -/
theorem count_onTx_iff (stats : TxSubmissionStats) (n : Nat) (attested : Hash32) (body : Bytes) :
    (∃ stats', stats.count attested (r.onTx n attested body) = .ok stats') ↔
      (body.length ≤ 16384 → ∀ hash, r.canonicalId body = some hash → hash = attested) := by
  unfold onTx
  split
  · next hlarge => exact iff_of_true ⟨_, rfl⟩ fun hle => absurd hlarge (not_lt.2 hle)
  next hsmall =>
  cases hid : r.canonicalId body with
  | none => exact iff_of_true ⟨_, rfl⟩ fun _ _ => nofun
  | some id =>
  dsimp only
  split
  · next hne =>
    refine iff_of_false (fun h => ?_) fun h => hne (h (not_lt.1 hsmall) id rfl)
    obtain ⟨stats', hok⟩ := h
    cases hok
  next heq =>
  refine iff_of_true ?_ fun _ hash hhash => ?_
  · split
    · exact ⟨_, rfl⟩
    · exact ⟨_, rfl⟩
  · cases hhash
    exact not_not.1 heq

/-- No error, and each call of `on_tx` is under the id that its body came from. -/
structure Attributed {α : Type} (calls : List (Hash32 × Bytes)) (next : Except ProtocolError α)
    (origins : List Hash32) : Prop where
  noError : ∀ e, next ≠ .error e
  matched : ∀ p ∈ (calls.map Prod.fst).zip origins, p.1 = p.2

variable {origins : List Hash32} {calls : List (Hash32 × Bytes)} {ackCount : Nat} {α : Type}

theorem attributed_cons_iff {next : Except ProtocolError α} {attested origin : Hash32} :
    Attributed ((attested, cbor) :: calls) next (origin :: origins) ↔
      attested = origin ∧ Attributed calls next origins := by
  constructor
  · rintro ⟨hnext, hcalls⟩
    exact ⟨hcalls (attested, origin) mem_cons_self, hnext,
      fun p hp => hcalls p (mem_cons_of_mem _ hp)⟩
  · rintro ⟨rfl, hnext, hcalls⟩
    refine ⟨hnext, ?_⟩
    rintro p (_ | ⟨_, hp⟩)
    · rfl
    · exact hcalls p hp

theorem not_attributed_error {e : ProtocolError} : ¬Attributed (α := α) calls (.error e) origins :=
  fun h => h.noError e rfl

theorem attributed_deliver_iff (view : MempoolView r.canonicalId) (toFetch : List TxIdAndSize)
    (inflight : Finset Hash32) (stats : TxSubmissionStats) :
    Attributed (r.deliver toFetch ((sent view toFetch).map (·.2)) inflight stats).1
        (r.deliver toFetch ((sent view toFetch).map (·.2)) inflight stats).2
        ((sent view toFetch).map (·.1)) ↔
      Deliverable view toFetch := by
  induction toFetch generalizing inflight stats with
  | nil =>
    refine iff_of_true ⟨fun e h => (nomatch h), fun p hp => absurd hp not_mem_nil⟩ ?_
    exact ⟨[], [], rfl, fun x hx => absurd hx not_mem_nil, fun x hx => absurd hx not_mem_nil⟩
  | cons id toFetch ih =>
    cases hcbor : view.queryTxCbor id.txId with
    | some cbor =>
      rw [deliverable_cons_of_some hcbor, sent_cons_of_some hcbor, map_cons, map_cons]
      unfold deliver
      by_cases hsize : cbor.length > id.sizeInBytes
      · rw [if_pos hsize]
        exact iff_of_false not_attributed_error fun h => absurd h.1 (not_le.2 hsize)
      obtain ⟨tx, htx, hraw⟩ := bind_eq_some_iff.1 hcbor
      obtain ⟨stats', hcount⟩ := (count_onTx_iff stats stats.txsReceived id.txId cbor).2
        fun _ _ hid => view.keyed _ tx cbor _ htx hraw hid
      rw [if_neg hsize, hcount]
      exact attributed_cons_iff.trans
        (and_congr (iff_of_true rfl (not_lt.1 hsize)) (ih (inflight.erase id.txId) stats'))
    | none =>
      -- the first body that is sent, if any, goes to the id that has none
      rw [deliverable_cons_of_none hcbor, sent_cons_of_none hcbor]
      cases hsent : sent view toFetch with
      | nil =>
        exact iff_of_true ⟨fun e h => (nomatch h), fun p hp => absurd hp not_mem_nil⟩ rfl
      | cons first rest =>
      obtain ⟨other, -, hother⟩ := mem_filterMap.1 (hsent ▸ mem_cons_self : first ∈ sent view toFetch)
      obtain ⟨cbor, hcbor', rfl⟩ := map_eq_some_iff.1 hother
      have hne : id.txId ≠ other.txId := by
        intro heq
        rw [← heq, hcbor] at hcbor'
        cases hcbor'
      refine iff_of_false ?_ (cons_ne_nil _ _)
      rw [map_cons, map_cons, deliver]
      split
      · exact not_attributed_error
      · cases stats.count id.txId (r.onTx stats.txsReceived id.txId cbor) with
        | error e => exact not_attributed_error
        | ok stats => exact fun h => hne (attributed_cons_iff.1 h).1

theorem deliver_inflight_subset {bodies : List Bytes}
    {inflight' : Finset Hash32} {stats stats' : TxSubmissionStats}
    (h : (r.deliver toFetch bodies inflight stats).2 = .ok (inflight', stats')) :
    inflight' ⊆ inflight := by
  induction bodies generalizing toFetch inflight stats with
  | nil =>
    have heq : inflight = inflight' := by
      cases toFetch with
      | nil | cons id toFetch => exact congrArg Prod.fst (Except.ok.inj h)
    exact heq ▸ Finset.Subset.refl _
  | cons cbor bodies ih =>
    cases toFetch with
    | nil =>
      unfold deliver at h
      cases hcount : stats.count 0 (r.onTx stats.txsReceived 0 cbor) with
      | error e => rw [hcount] at h; cases h
      | ok stats => rw [hcount] at h; exact ih h
    | cons id toFetch =>
    unfold deliver at h
    split at h
    · cases h
    · cases hcount : stats.count id.txId (r.onTx stats.txsReceived id.txId cbor) with
      | error e => rw [hcount] at h; cases h
      | ok stats => rw [hcount] at h; exact (ih h).trans (Finset.erase_subset _ _)

/-! ## Sessions -/

/-- The session has not ended in a violation, and every body that was handed to `on_tx` was
attributed to the id it was announced under. -/
structure Session.Sound (s : Session) : Prop where
  noViolation : ∀ e, s.ended ≠ some (.violation e)
  attributed : ∀ p ∈ s.handed, p.1 = p.2

/-- The ids that the client would announce on a look at its mempool. -/
def Session.announced (s : Session) (view : MempoolView r.canonicalId) : List TxIdAndSize :=
  match s.request with
  | .requestTxIds _ ackCount reqCount =>
    (s.source.getTxIds view (if s.polling then 0 else ackCount) reqCount).2
  | _ => []

/-- What the client's mempool must be like at a look. When ids are requested, there is room in
flight for what is announced; when bodies are requested, they can be delivered. -/
def Session.Safe (r : Receiver) (s : Session) (view : MempoolView r.canonicalId) : Prop :=
  s.ended = none → match s.server.awaited with
    | .init => True
    | .txIds _ _ =>
      (s.server.inflight ∪ ((s.announced view).map (·.txId)).toFinset).card ≤
        r.limits.maxInflightTxIds
    | .txs toFetch => Deliverable view toFetch

def Session.SafeRun (r : Receiver) : Session → List (MempoolView r.canonicalId) → Prop
  | _, [] => True
  | s, view :: views => s.Safe r view ∧ SafeRun r (s.step r view) views

def Session.Valid (r : Receiver) (s : Session) : Prop :=
  s.ended = none → Linked r.limits s.server s.request

theorem valid_react {reply : TxSubmissionMessage}
    (h : ∀ server request, (s.server.receive r reply).next = .ok (some (server, request)) →
      Linked r.limits server request) : (s.react r origins reply).Valid r := by
  unfold react
  dsimp only
  cases hnext : (s.server.receive r reply).next with
  | error e => exact fun hended => (nomatch hended)
  | ok next =>
    cases next with
    | none => exact fun hended => (nomatch hended)
    | some next => exact fun _ => h next.1 next.2 hnext

theorem sound_react_iff (h : s.Sound) (hended : s.ended = none)
    (origins : List Hash32) (reply : TxSubmissionMessage) :
    (s.react r origins reply).Sound ↔
      Attributed (s.server.receive r reply).calls (s.server.receive r reply).next origins := by
  unfold react
  dsimp only
  cases hnext : (s.server.receive r reply).next with
  | error e => exact iff_of_false (fun hs => hs.noViolation e rfl) not_attributed_error
  | ok next =>
  have hhanded : (∀ p ∈ s.handed ++ ((s.server.receive r reply).calls.map Prod.fst).zip origins,
      p.1 = p.2) ↔
      Attributed (s.server.receive r reply).calls (.ok next : Except ProtocolError _)
        origins := by
    rw [forall_mem_append]
    exact ⟨fun hp => ⟨fun e he => (nomatch he), hp.2⟩, fun ha => ⟨h.attributed, ha.matched⟩⟩
  rw [← hhanded]
  cases next with
  | none => exact ⟨fun hs => hs.attributed, fun hp => ⟨fun e he => (nomatch he), hp⟩⟩
  | some next =>
    refine ⟨fun hs => hs.attributed, fun hp => ⟨fun e he => ?_, hp⟩⟩
    rw [show s.ended = some (.violation e) from he] at hended
    cases hended

theorem step_of_ended {ending : Ending} (h : s.ended = some ending)
    (view : MempoolView r.canonicalId) : s.step r view = s := by
  unfold step
  rw [h]

theorem step_of_answer (hended : s.ended = none) {view : MempoolView r.canonicalId}
    {result : Except ProtocolError (MempoolTxSource × Option TxSubmissionMessage)}
    (h : answer s.source s.polling view s.request = result) :
    s.step r view = s.proceed r (sentIds view s.request) result := by
  rw [← h]
  unfold step
  split
  · next ending hsome => rw [hsome] at hended; cases hended
  · rfl

/-- A look for ids: the client goes on polling, or the server gets the ids. -/
theorem step_of_requestTxIds
    (hended : s.ended = none) (hrequest : s.request = .requestTxIds blocking ackCount reqCount)
    (view : MempoolView r.canonicalId) :
    ∃ source, s.step r view =
      if (s.announced view).isEmpty && blocking then { s with source, polling := true }
      else { s with source }.react r [] (.replyTxIds (s.announced view)) := by
  refine ⟨(s.source.getTxIds view (if s.polling then 0 else ackCount) reqCount).1, ?_⟩
  have hannounced : s.announced view =
      (s.source.getTxIds view (if s.polling then 0 else ackCount) reqCount).2 := by
    unfold announced
    rw [hrequest]
  have hstep : s.step r view = _ := step_of_answer hended rfl
  rw [hrequest] at hstep
  unfold answer at hstep
  dsimp only at hstep
  rw [← hannounced] at hstep
  rw [hstep]
  split_ifs <;> rfl

/-- A look for bodies. -/
theorem step_of_requestTxs {ids : List (Nat × Hash32)} (hended : s.ended = none)
    (hrequest : s.request = .requestTxs ids) (view : MempoolView r.canonicalId) :
    s.step r view = s.react r (sentIds view (.requestTxs ids)) (.replyTxs (getTxs view ids)) := by
  have hanswer : answer s.source s.polling view s.request =
      .ok (s.source, some (.replyTxs (getTxs view ids))) := by
    rw [hrequest]
    rfl
  rw [step_of_answer hended hanswer, hrequest]
  rfl

theorem length_announced_le (hrequest : s.request = .requestTxIds blocking ackCount reqCount)
    (view : MempoolView r.canonicalId) : (s.announced view).length ≤ reqCount := by
  unfold announced
  rw [hrequest]
  exact length_yieldNew_le _ _ _ (zero_le _)

theorem receive_replyTxIds
    (h : server.awaited = .txIds blocking reqCount) (ids : List TxIdAndSize) :
    server.receive r (.replyTxIds ids) =
      ⟨[], server.onReplyTxIds r.limits blocking reqCount ids⟩ := by
  unfold receive
  rw [h]

theorem receive_replyTxs (h : server.awaited = .txs toFetch) (txs : List (Nat × Bytes)) :
    server.receive r (.replyTxs txs) = server.onReplyTxs r toFetch txs := by
  unfold receive
  rw [h]

theorem onReplyTxs_next_ok {txs : List (Nat × Bytes)} {next : Option (Server × TxSubmissionMessage)}
    (h : (server.onReplyTxs r toFetch txs).next = .ok next) :
    ∃ inflight stats,
      (r.deliver toFetch (txs.map (·.2)) server.inflight server.stats).2 = .ok (inflight, stats) ∧
      next = some ({ server with inflight, stats }.requestMore r.limits) := by
  unfold onReplyTxs at h
  dsimp only at h
  cases hd : (r.deliver toFetch (txs.map (·.2)) server.inflight server.stats).2 with
  | error e => rw [hd] at h; cases h
  | ok result =>
    rw [hd] at h
    exact ⟨result.1, result.2, rfl, (Except.ok.inj h).symm⟩

theorem valid_step (h : s.Valid r) (view : MempoolView r.canonicalId) :
    (s.step r view).Valid r := by
  cases hended : s.ended with
  | some ending => rw [step_of_ended hended]; exact h
  | none =>
  have hlinked := h hended
  have hawaited := hlinked.awaited
  cases hs : s.server.awaited with
  | init => rw [hs] at hawaited; exact hawaited.elim
  | txIds blocking reqCount =>
    rw [hs] at hawaited
    obtain ⟨⟨ackCount, hrequest⟩, hroom⟩ := hawaited
    obtain ⟨source, hstep⟩ := step_of_requestTxIds hended hrequest view
    rw [hstep]
    split
    · exact fun _ => hlinked
    refine valid_react fun server request hnext => ?_
    have hanswered := answered_onReplyTxIds blocking
      (length_announced_le hrequest view) hroom hlinked.inflight
    rw [receive_replyTxIds hs] at hnext
    dsimp only at hnext
    rw [hnext] at hanswered
    exact hanswered.2
  | txs toFetch =>
    rw [hs] at hawaited
    rw [step_of_requestTxs hended hawaited]
    refine valid_react fun server request hnext => ?_
    rw [receive_replyTxs hs] at hnext
    obtain ⟨inflight, stats, hdelivered, hmore⟩ := onReplyTxs_next_ok hnext
    cases hmore
    exact linked_requestMore hlinked.unacked
      ((Finset.card_le_card (deliver_inflight_subset hdelivered)).trans hlinked.inflight)

/-- A look at the mempool keeps a session sound exactly if it is safe. -/
theorem sound_step_iff (hvalid : s.Valid r) (h : s.Sound)
    (view : MempoolView r.canonicalId) : (s.step r view).Sound ↔ s.Safe r view := by
  unfold Session.Safe
  cases hended : s.ended with
  | some ending =>
    rw [step_of_ended hended]
    exact iff_of_true h fun hnone => (nomatch hnone)
  | none =>
  have hlinked := hvalid hended
  have hawaited := hlinked.awaited
  rw [forall_prop_of_true (rfl : (none : Option Ending) = none)]
  cases hs : s.server.awaited with
  | init => rw [hs] at hawaited; exact hawaited.elim
  | txIds blocking reqCount =>
    rw [hs] at hawaited
    obtain ⟨⟨ackCount, hrequest⟩, hroom⟩ := hawaited
    obtain ⟨source, hstep⟩ := step_of_requestTxIds hended hrequest view
    rw [hstep]
    split
    · next hwait =>
      obtain ⟨hnil, -⟩ := Bool.and_eq_true_iff.1 hwait
      refine iff_of_true { h with } ?_
      rw [isEmpty_iff.1 hnil]
      simpa using hlinked.inflight
    have hsound : Session.Sound { s with source } := { h with }
    rw [sound_react_iff hsound hended, receive_replyTxIds hs]
    have hanswered := answered_onReplyTxIds blocking
      (length_announced_le hrequest view) hroom hlinked.inflight
    rw [← hanswered.not_error_iff]
    exact ⟨fun ha => ha.noError, fun hne => ⟨hne, fun p hp => absurd hp not_mem_nil⟩⟩
  | txs toFetch =>
    rw [hs] at hawaited
    rw [step_of_requestTxs hended hawaited, sound_react_iff h hended, receive_replyTxs hs,
      sentIds_eq_sent]
    show _ ↔ Deliverable view toFetch
    rw [← attributed_deliver_iff view toFetch s.server.inflight s.server.stats]
    unfold onReplyTxs
    rw [getTxs_eq_sent]
    dsimp only
    constructor
    · rintro ⟨hnext, hcalls⟩
      refine ⟨fun e he => hnext e ?_, hcalls⟩
      rw [he]
      rfl
    · rintro ⟨hnext, hcalls⟩
      refine ⟨fun e he => ?_, hcalls⟩
      cases hd : (r.deliver toFetch ((sent view toFetch).map (·.2)) s.server.inflight
        s.server.stats).2 with
      | error e' => exact hnext e' hd
      | ok result => rw [hd] at he; cases he

theorem valid_start (r : Receiver) : (start r).Valid r := by
  refine valid_react fun server request hnext => ?_
  cases hnext
  exact linked_requestMore (zero_le _) (zero_le _)

theorem sound_run_iff (hvalid : s.Valid r) (h : s.Sound)
    (views : List (MempoolView r.canonicalId)) :
    (∀ k, (s.run r (views.take k)).Sound) ↔ s.SafeRun r views := by
  have hinv : ∀ (s : Session) (view : MempoolView r.canonicalId), s.Valid r → s.Sound →
      (s.step r view).Valid r := fun _ view h _ => valid_step h view
  have hstep : ∀ (s : Session) (view : MempoolView r.canonicalId), s.Valid r → s.Sound →
      ((s.step r view).Sound ↔ s.Safe r view) := fun _ view hv hs => sound_step_iff hv hs view
  exact Runs.always_iff (fun _ => trivial) (fun _ _ _ => Iff.rfl) hinv hstep hvalid h views

/-- Whatever becomes of the mempool, a running session keeps to the limits of the server: on the ids
that are not acknowledged, also with those of the request on the wire, and on those in flight. -/
theorem window_kept (r : Receiver) (views : List (MempoolView r.canonicalId)) :
    ((start r).run r views).Valid r :=
  List.foldlRecOn views _ (valid_start r) fun _ h view _ => valid_step h view

/-- A session is sound after every look at the mempool if and only if every look is safe. -/
theorem sound_iff_safeRun (r : Receiver) (views : List (MempoolView r.canonicalId)) :
    (∀ k, ((start r).run r (views.take k)).Sound) ↔
      (start r).SafeRun r views :=
  sound_run_iff (valid_start r)
    ⟨fun _ he => (nomatch he), fun _ hp => absurd hp not_mem_nil⟩ views

/-- A receiver that finds the id of a transaction in its length. -/
def lengthReceiver : Receiver :=
  ⟨Limits.standard, fun cbor => some (BitVec.ofNat 256 cbor.length), fun _ => true⟩

def poolOf : List Nat → FinMap Hash32 PooledTx
  | [] => ∅
  | n :: ns => (poolOf ns).insert (BitVec.ofNat 256 n) ⟨n, some (replicate n 0)⟩

theorem poolOf_keyed (ns : List Nat) (hash : Hash32) (tx : PooledTx) (cbor : Bytes) (id : Hash32)
    (htx : (poolOf ns).lookup hash = some tx) (hcbor : tx.rawCbor = some cbor)
    (hid : lengthReceiver.canonicalId cbor = some id) : id = hash := by
  induction ns with
  | nil =>
    cases htx
  | cons n ns ih =>
    rw [poolOf, FinMap.lookup_insert_ite] at htx
    split at htx
    · next heq =>
      cases htx
      cases hcbor
      rw [heq, ← some.inj hid, length_replicate]
    · exact ih htx

/-- The transactions of the given lengths. -/
def viewOf (ns : List Nat) : MempoolView lengthReceiver.canonicalId :=
  ⟨ns.map (BitVec.ofNat 256), poolOf ns, poolOf_keyed ns⟩

/-- Two transactions are announced and the first is mined before its body is requested. The body of
the second is taken for the first, and the honest client is convicted. -/
theorem shifted_body_convicted :
    let s := (start lengthReceiver).run lengthReceiver [viewOf [1, 2], viewOf [2]]
    s.handed = [((1 : Hash32), (2 : Hash32))] ∧
      s.ended = some (.violation (.integrityViolation 1)) := by
  decide +kernel

end Dugite.TxSubmission
