import Dugite.Network.TxSubmissionRuns

/-!
# What is in flight after a reply

Here the peer may send anything. When the server has handled a reply with bodies, nothing of its
request should be in flight, so that an id is fetched again when it is announced again, and no more
bodies should have been passed on than were requested (`Settled`). The server takes an id out of
flight when a body comes for it, and passes on whatever comes: everything is settled exactly if the
reply has as many bodies as the request has ids, or ends the session (`reply_settled_iff`).
-/

namespace Dugite.TxSubmission

open List Receiver Nat

variable {r : Receiver} {server : Server} {toFetch : List TxIdAndSize} {hash : Hash32}

/-- The reaction to the reply to a request for bodies. -/
structure Settled (toFetch : List TxIdAndSize) (reaction : Reaction) : Prop where
  passedOn : reaction.calls.length ≤ toFetch.length
  cleared : ∀ server request, reaction.next = .ok (some (server, request)) →
    ∀ id ∈ toFetch, id.txId ∉ server.inflight ∧ ∀ ids : List TxIdAndSize,
      id.txId ∈ ids.map (·.txId) → id.txId ∈ (track ids server.inflight).1.map (·.txId)

/-- A body is no larger than advertised and, if it is looked at, has no other id. -/
def Receiver.Passes (r : Receiver) (id : TxIdAndSize) (body : Bytes) : Prop :=
  body.length ≤ id.sizeInBytes ∧
    (body.length ≤ 16384 → ∀ hash, r.canonicalId body = some hash → hash = id.txId)

section Track
variable (ids : List TxIdAndSize) (inflight : Finset Hash32)

theorem mem_track_fst : hash ∈ (track ids inflight).1.map (·.txId) ↔
    hash ∈ ids.map (·.txId) ∧ hash ∉ inflight := by
  induction ids generalizing inflight with
  | nil => simp [track]
  | cons id ids ih =>
    unfold track
    split
    · next hmem =>
      rw [ih, map_cons, mem_cons]
      refine and_congr_left fun hnot => (or_iff_right ?_).symm
      rintro rfl
      exact hnot hmem
    next hnew =>
    simp only [map_cons, mem_cons, ih, Finset.mem_insert, not_or]
    by_cases heq : hash = id.txId
    · simp [heq, hnew]
    · simp [heq]

theorem nodup_track_fst : ((track ids inflight).1.map (·.txId)).Nodup := by
  induction ids generalizing inflight with
  | nil => exact .nil
  | cons id ids ih =>
    unfold track
    split
    · exact ih inflight
    · refine nodup_cons.2 ⟨fun hmem => ?_, ih _⟩
      exact ((mem_track_fst ids _).1 hmem).2 (Finset.mem_insert_self _ _)

end Track

/-- A server that waits for bodies has tracked the ids of the message before. -/
theorem tracked_of_awaited {previous : Server} {msg request : TxSubmissionMessage}
    (h : (previous.receive r msg).next = .ok (some (server, request)))
    (hawaited : server.awaited = .txs toFetch) : ∃ ids,
      toFetch = (track ids previous.inflight).1 ∧ server.inflight = (track ids previous.inflight).2 := by
  unfold Server.receive at h
  split at h
  · cases h
    cases hawaited
  · cases h
  · next ids _ =>
    dsimp only at h
    unfold Server.onReplyTxIds at h
    dsimp only at h
    split_ifs at h
    · cases h
      cases hawaited
    · cases h
      cases hawaited
    · cases h
      cases hawaited
      exact ⟨ids, rfl, rfl⟩
  · cases h
  · cases h
  · obtain ⟨inflight, stats, -, hmore⟩ := onReplyTxs_next_ok h
    cases hmore
    cases hawaited
  · cases h

/-- The session ends at a body that does not pass. If all pass that were requested, the first of any
others is passed on, and without others the ids of the bodies are no longer in flight. -/
theorem deliver_cases (toFetch : List TxIdAndSize) (bodies : List Bytes) (inflight : Finset Hash32)
    (stats : TxSubmissionStats) :
    let delivered := r.deliver toFetch bodies inflight stats
    (¬(∀ p ∈ toFetch.zip bodies, r.Passes p.1 p.2) ∧ delivered.1.length ≤ toFetch.length ∧
        ∃ e, delivered.2 = .error e) ∨
      (∀ p ∈ toFetch.zip bodies, r.Passes p.1 p.2) ∧
        (toFetch.length < bodies.length ∧ toFetch.length < delivered.1.length ∨
          bodies.length ≤ toFetch.length ∧ delivered.1.length = bodies.length ∧
            ∃ stats', delivered.2 = .ok
              (inflight \ ((toFetch.take bodies.length).map (·.txId)).toFinset, stats')) := by
  induction toFetch generalizing bodies inflight stats with
  | nil =>
    cases bodies with
    | nil => exact .inr ⟨fun p hp => absurd hp not_mem_nil, .inr ⟨le_rfl, rfl, stats, by simp [deliver]⟩⟩
    | cons body bodies =>
    refine .inr ⟨fun p hp => absurd hp not_mem_nil, .inl ⟨succ_pos _, ?_⟩⟩
    unfold deliver
    cases stats.count 0 (r.onTx stats.txsReceived 0 body) with
    | error e => exact one_pos
    | ok stats => exact succ_pos _
  | cons id toFetch ih =>
    cases bodies with
    | nil => exact .inr ⟨fun p hp => absurd hp not_mem_nil, .inr ⟨zero_le _, rfl, stats, by simp [deliver]⟩⟩
    | cons body bodies =>
    unfold deliver
    rw [zip_cons_cons, forall_mem_cons]
    split
    · next hlarge =>
      exact .inl ⟨fun h => absurd h.1.1 (not_le.2 hlarge), zero_le _, _, rfl⟩
    next hsize =>
    have hpass := count_onTx_iff (r := r) stats stats.txsReceived id.txId body
    cases hcount : stats.count id.txId (r.onTx stats.txsReceived id.txId body) with
    | error e =>
      refine .inl ⟨fun h => ?_, succ_le_succ (zero_le _), e, rfl⟩
      obtain ⟨stats', hok⟩ := hpass.2 h.1.2
      rw [hcount] at hok
      cases hok
    | ok stats' =>
    have hpass : r.Passes id body := ⟨not_lt.1 hsize, hpass.1 ⟨stats', hcount⟩⟩
    rcases ih bodies (inflight.erase id.txId) stats' with
      ⟨hfails, hle, herror⟩ | ⟨hall, ⟨hmore, hcalls⟩ | ⟨hle, hcalls, stats'', hok⟩⟩
    · exact .inl ⟨fun h => hfails h.2, succ_le_succ hle, herror⟩
    · exact .inr ⟨⟨hpass, hall⟩, .inl ⟨succ_lt_succ hmore, succ_lt_succ hcalls⟩⟩
    refine .inr ⟨⟨hpass, hall⟩, .inr ⟨succ_le_succ hle, congrArg (· + 1) hcalls, stats'', ?_⟩⟩
    rw [length_cons, take_succ_cons, map_cons, toFinset_cons, Finset.sdiff_insert,
      ← Finset.erase_sdiff_comm]
    exact hok

/-- Whatever came before: a reply with bodies settles everything exactly if there are as many as
were requested, or the session ends at one that is too large or has another id. -/
theorem reply_settled_iff {previous : Server} {msg request : TxSubmissionMessage}
    (h : (previous.receive r msg).next = .ok (some (server, request)))
    (hawaited : server.awaited = .txs toFetch) (txs : List (Nat × Bytes)) :
    Settled toFetch (server.receive r (.replyTxs txs)) ↔
      ((∀ p ∈ toFetch.zip (txs.map (·.2)), r.Passes p.1 p.2) → txs.length = toFetch.length) := by
  have hcases := deliver_cases (r := r) toFetch (txs.map (·.2)) server.inflight server.stats
  rw [length_map] at hcases
  rw [receive_replyTxs hawaited]
  rcases hcases with ⟨hfails, hle, e, herror⟩ | ⟨hall, ⟨hmore, hcalls⟩ | ⟨hle, hcalls, stats, hok⟩⟩
  · refine iff_of_true ⟨hle, fun server' request hnext => ?_⟩ fun hall => absurd hall hfails
    obtain ⟨inflight, stats, hok, -⟩ := onReplyTxs_next_ok hnext
    rw [herror] at hok
    cases hok
  · refine iff_of_false (fun hsettled => ?_) fun heq => absurd (heq hall) hmore.ne'
    exact absurd hsettled.passedOn (not_le.2 hcalls)
  have hnext : (server.onReplyTxs r toFetch txs).next = .ok (some ({ server with
      inflight := server.inflight \ ((toFetch.take txs.length).map TxIdAndSize.txId).toFinset
      stats }.requestMore r.limits)) := by
    rw [Server.onReplyTxs, hok]
    rfl
  rw [forall_prop_of_true hall]
  constructor
  · -- the first id without a body is still in flight
    intro hsettled
    by_contra hne
    have hlt := lt_of_le_of_ne hle hne
    have hid := getElem_mem hlt
    obtain ⟨ids, rfl, hinflight⟩ := tracked_of_awaited h hawaited
    refine (hsettled.cleared _ _ hnext _ hid).1 (Finset.mem_sdiff.2 ⟨?_, fun htaken => ?_⟩)
    · have hmem := ((mem_track_fst ids _).1 (mem_map_of_mem hid)).1
      rw [hinflight, track_snd]
      exact Finset.mem_union_right _ (mem_toFinset.2 hmem)
    · rw [mem_toFinset, map_take] at htaken
      refine disjoint_take_drop (nodup_track_fst ids _) le_rfl htaken ?_
      rw [← map_drop, drop_eq_getElem_cons hlt]
      exact mem_cons_self
  · intro heq
    refine ⟨hcalls.le.trans heq.le, fun server' request hnext' id hid => ?_⟩
    cases hnext.symm.trans hnext'
    have hnot : id.txId ∉ server.inflight \
        ((toFetch.take txs.length).map (·.txId)).toFinset := by
      rw [Finset.mem_sdiff, heq, take_length, mem_toFinset]
      exact fun h => h.2 (mem_map_of_mem hid)
    exact ⟨hnot, fun ids hids => (mem_track_fst ids _).2 ⟨hids, hnot⟩⟩

/-- A server that waits for ids. -/
def asking : Server := ⟨[], ∅, ⟨0, 0, 0, 0⟩, .txIds true 10⟩

/-- Transactions of the lengths 1 and 2. -/
def twoIds : List TxIdAndSize := [⟨6, 1, 1⟩, ⟨6, 2, 2⟩]

/-- A server that has been told of them, and waits for the bodies. -/
def fetching : Server := ⟨twoIds, {2, 1}, ⟨2, 0, 0, 0⟩, .txs twoIds⟩

theorem both_bodies_settled : Settled twoIds
    (fetching.receive lengthReceiver (.replyTxs [(6, [0]), (6, [0, 0])])) := by
  have hasked : (asking.receive lengthReceiver (.replyTxIds twoIds)).next =
      .ok (some (fetching, _)) := rfl
  exact (reply_settled_iff hasked rfl _).2 fun _ => rfl

/-- The second body does not come, and its id stays in flight. A third body, which was not requested,
is passed on. -/
theorem short_reply_leaks :
    ¬Settled twoIds (fetching.receive lengthReceiver (.replyTxs [(6, [0])])) ∧
      ¬Settled twoIds
        (fetching.receive lengthReceiver (.replyTxs [(6, [0]), (6, [0, 0]), (6, [])])) := by
  refine ⟨fun h => ?_, fun h => absurd h.passedOn (by decide +kernel)⟩
  exact absurd (h.cleared _ _ rfl ⟨6, 2, 2⟩ (by decide)).1 (by decide +kernel)

end Dugite.TxSubmission
