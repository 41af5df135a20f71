import Dugite.Ledger.LedgerSeq

/-!
# The spacing of the checkpoints

A reconstruction is to apply at most `checkpoint_interval` deltas. A push sets a checkpoint where the
length of the window is a multiple of the interval. So the pushes and rollbacks fix the checkpoints
through one number per delta, the length that the window had after its push (`lengthsAfter`): that
is `k` for every push onto a full window. `replay_bounded_iff` says when the lengths keep the bound,
and what that means for `k` and the interval where nothing is rolled back.
-/

namespace Dugite.LedgerSeq

open List LedgerSeq Nat

variable {R D : Type} {applyChanges : LedgerCore R → D → LedgerCore R} {seq seq' : LedgerSeq R D}

section
variable (seq : LedgerSeq R D) (index : Nat)

/-- Where a reconstruction starts to apply deltas. -/
def replayStart : Nat :=
  match seq.nearestCheckpoint index with
  | some (cpIdx, _) => cpIdx + 1
  | none => 0

/-- The deltas that `stateAtIndex` applies. -/
def replayed : List (LedgerDelta D) :=
  (seq.deltas.drop (seq.replayStart index)).take (index + 1 - seq.replayStart index)

theorem stateAtIndex_eq : seq.stateAtIndex applyChanges index =
      (seq.replayed index).foldl (applyDeltaToState applyChanges)
        (((seq.nearestCheckpoint index).map (·.2)).getD seq.anchor.cloneWithoutUtxos) := by
  unfold stateAtIndex replayed replayStart
  cases seq.nearestCheckpoint index <;> rfl

end

/-! ## Lengths and checkpoints -/

/-- The length of the window after the push of each of its deltas, one call later. -/
def lengthsAfter (k : Nat) (lengths : List Nat) : SeqOp R D → List Nat
  | .push _ => (lengths ++ [min (lengths.length + 1) k]).drop (lengths.length + 1 - k)
  | .rollback n => lengths.take (lengths.length - n)
  | _ => lengths

theorem length_lengthsAfter_le (k : Nat) (ops : List (SeqOp R D)) :
    (ops.foldl (lengthsAfter k) []).length ≤ k := by
  refine foldlRecOn (motive := fun lengths : List Nat => lengths.length ≤ k) ops _ (zero_le k)
    fun lengths h op _ => ?_
  cases op with
  | push delta =>
    rw [lengthsAfter, length_drop, length_append, length_singleton]
    omega
  | rollback n => exact (length_take_le _ _).trans ((Nat.sub_le _ _).trans h)
  | _ => exact h

/-- A push or a rollback. -/
def MovesTip : SeqOp R D → Prop
  | .push _ | .rollback _ => True
  | _ => False

def IsPush : SeqOp R D → Prop
  | .push _ => True
  | _ => False

section
variable (interval : Nat) (lengths : List Nat)

/-- Of the deltas in a row that are one more than an interval, one was pushed at a multiple of the
interval. -/
def Dense : Prop :=
  ∀ a, a + interval < lengths.length →
    ∃ j l, a ≤ j ∧ j ≤ a + interval ∧ lengths[j]? = some l ∧ interval ∣ l

/-- The positions with checkpoints. -/
def marks : List Nat :=
  (range lengths.length).filter fun j => lengths[j]?.any fun l => interval ∣ l

variable {interval lengths} {j : Nat}

theorem mem_marks : j ∈ marks interval lengths ↔ ∃ l, lengths[j]? = some l ∧ interval ∣ l := by
  rw [marks, mem_filter, mem_range, Option.any_eq_true]
  simp only [decide_eq_true_eq]
  refine and_iff_right_of_imp ?_
  rintro ⟨l, hl, -⟩
  exact (List.getElem?_eq_some_iff.1 hl).1

theorem lt_of_mem_marks (h : j ∈ marks interval lengths) : j < lengths.length :=
  mem_range.1 (mem_filter.1 h).1

theorem marks_append (lengths lengths' : List Nat) : marks interval (lengths ++ lengths') =
    marks interval lengths ++ (marks interval lengths').map (lengths.length + ·) := by
  rw [marks, length_append, range_add, filter_append, filter_map]
  congr 1
  · refine filter_congr fun j hj => ?_
    rw [getElem?_append_left (mem_range.1 hj)]
  · refine congrArg _ (filter_congr fun j _ => ?_)
    rw [Function.comp_apply, getElem?_append_right (Nat.le_add_right _ _), Nat.add_sub_cancel_left]

theorem marks_singleton (l : Nat) : marks interval [l] = if interval ∣ l then [0] else [] := by
  by_cases h : interval ∣ l <;> simp [marks, range_succ, h]

end

/-- The checkpoints of a window are where the lengths say. -/
structure Marked (k interval : Nat) (seq : LedgerSeq R D) (lengths : List Nat) : Prop where
  settings : seq.k = k ∧ seq.checkpointInterval = interval ∧ seq.catchupMode = false
  length : lengths.length = seq.deltas.length
  marked : seq.checkpoints.map (·.1) = marks interval lengths

variable {roomy : LedgerSeq R D}

/-- A push onto a full window takes one delta out of it. -/
theorem makeRoom_cases (hwindow : seq.deltas.length ≤ seq.k)
    (hroom : makeRoom applyChanges (seq.deltas.length + 1) seq = some roomy) :
    seq.deltas.length < seq.k ∧ roomy = seq ∨
      seq.deltas ≠ [] ∧ seq.deltas.length = seq.k ∧ roomy = seq.advanceAnchor applyChanges := by
  rw [makeRoom] at hroom
  split at hroom
  · next hfull =>
    cases hdeltas : seq.deltas with
    | nil =>
      rw [hdeltas] at hroom
      cases hroom
    | cons oldest deltas =>
    rw [hdeltas, length_cons] at hwindow hroom hfull
    rw [makeRoom, k_advanceAnchor, deltas_advanceAnchor, hdeltas, tail_cons,
      if_neg (by omega)] at hroom
    cases hroom
    exact .inr ⟨cons_ne_nil _ _, by rw [length_cons]; omega, rfl⟩
  · cases hroom
    exact .inl ⟨by omega, rfl⟩

namespace Marked

variable {k interval : Nat} {lengths : List Nat} (h : Marked k interval seq lengths)
include h

theorem advanceAnchor : Marked k interval (seq.advanceAnchor applyChanges) lengths.tail := by
  have hlength := h.length
  unfold LedgerSeq.advanceAnchor
  split
  · next hnil =>
    rw [hnil, length_nil, length_eq_zero_iff] at hlength
    subst hlength
    exact h
  next oldest deltas hdeltas =>
  rw [hdeltas, length_cons] at hlength
  obtain ⟨l, lengths, rfl⟩ := exists_cons_of_length_eq_add_one hlength
  refine ⟨h.settings, Nat.succ.inj hlength, ?_⟩
  have hslide : ∀ l' : List (Nat × SeqState R), (l'.filterMap fun e =>
      if e.1 = 0 then none else some (e.1 - 1, e.2)).map (·.1) =
        (l'.map (·.1)).filterMap fun j => if j = 0 then none else some (j - 1) := by
    intro l'
    rw [map_filterMap, filterMap_map]
    congr 1
    funext e
    by_cases he : e.1 = 0 <;> simp [he]
  rw [hslide, h.marked, ← singleton_append, marks_append, marks_singleton, filterMap_append,
    filterMap_map]
  split <;> simp [Nat.add_comm 1]

theorem append (delta : LedgerDelta D) :
    Marked k interval (seq.append applyChanges delta) (lengths ++ [lengths.length + 1]) := by
  obtain ⟨hk, hinterval, hlive⟩ := h.settings
  have hlength : (lengths ++ [lengths.length + 1]).length = (seq.deltas ++ [delta]).length := by
    rw [length_append, length_append, h.length]
    rfl
  have hlt : ∀ e ∈ seq.checkpoints, e.1 < seq.deltas.length := fun e he =>
    h.length ▸ lt_of_mem_marks (h.marked ▸ mem_map_of_mem he)
  have hnew : ∀ state, insertCheckpoint seq.deltas.length state seq.checkpoints =
      seq.checkpoints ++ [(seq.deltas.length, state)] := by
    intro state
    rw [insertCheckpoint, filter_eq_self.2 fun e he => decide_eq_true (hlt e he),
      filter_eq_nil_iff.2 fun e he => by simpa using (hlt e he).le]
  unfold LedgerSeq.append
  simp only [length_append, length_singleton, Nat.add_sub_cancel, hlive, hinterval, Bool.not_false,
    Bool.true_and, decide_eq_true_eq, ← dvd_iff_mod_eq_zero, hnew]
  split
  · next hmark =>
    refine ⟨⟨hk, rfl, rfl⟩, hlength, ?_⟩
    rw [map_append, h.marked, marks_append, marks_singleton, h.length, if_pos hmark]
    rfl
  · next hmark =>
    refine ⟨⟨hk, rfl, rfl⟩, hlength, ?_⟩
    rw [marks_append, marks_singleton, h.length, if_neg hmark, map_nil, append_nil]
    exact h.marked

theorem rollback (n : Nat) :
    Marked k interval (seq.rollback n) (lengths.take (lengths.length - n)) := by
  have hlen : seq.deltas.length - min n seq.deltas.length = lengths.length - n := by
    rw [h.length]
    omega
  rw [LedgerSeq.rollback, hlen]
  refine ⟨h.settings, by rw [length_take, length_take, h.length], ?_⟩
  have hmarks := h.marked
  rw [← take_append_drop (lengths.length - n) lengths, marks_append, length_take,
    Nat.min_eq_left (Nat.sub_le _ _)] at hmarks
  have hfilter : (seq.checkpoints.filter (·.1 < lengths.length - n)).map (·.1) =
      (seq.checkpoints.map (·.1)).filter (· < lengths.length - n) := by
    rw [filter_map]
    rfl
  rw [hfilter, hmarks, filter_append, filter_eq_self.2, filter_eq_nil_iff.2, append_nil]
  · intro j hj
    obtain ⟨i, -, rfl⟩ := mem_map.1 hj
    simp
  · exact fun j hj => decide_eq_true ((lt_of_mem_marks hj).trans_le (length_take_le _ _))

/-- One call. -/
theorem run (hwindow : seq.deltas.length ≤ seq.k) {op : SeqOp R D} (hop : MovesTip op)
    (hrun : op.run applyChanges seq = some seq') :
    Marked k interval seq' (lengthsAfter k lengths op) := by
  match op, hop with
  | .rollback n, _ =>
    obtain rfl := Option.some.inj hrun
    exact h.rollback n
  | .push delta, _ =>
    obtain ⟨roomy, hroom, rfl⟩ := Option.map_eq_some_iff.1 hrun
    have hnoted : Marked k interval (seq.noteParent delta) lengths := by
      rw [noteParent_frame]
      exact { h with }
    have hkept : (seq.noteParent delta).deltas = seq.deltas ∧ (seq.noteParent delta).k = seq.k := by
      rw [noteParent_frame]
      exact ⟨rfl, rfl⟩
    have hlength := h.length
    have hk := h.settings.1
    rcases makeRoom_cases (by rwa [hkept.1, hkept.2]) hroom with ⟨hlt, rfl⟩ | ⟨hne, hfull, rfl⟩
    · rw [hkept.1, hkept.2] at hlt
      rw [lengthsAfter, Nat.sub_eq_zero_of_le (by omega), drop_zero, Nat.min_eq_left (by omega)]
      exact hnoted.append delta
    · rw [hkept.1] at hne hfull
      rw [hkept.2] at hfull
      obtain ⟨l, lengths, rfl⟩ := exists_cons_of_length_pos (hlength ▸ length_pos_iff.2 hne)
      have hdrop : (l :: lengths).length + 1 - k = 1 := by omega
      have hmin : min ((l :: lengths).length + 1) k = lengths.length + 1 := by
        rw [length_cons] at hlength ⊢
        omega
      rw [lengthsAfter, hdrop, hmin]
      exact hnoted.advanceAnchor.append delta

theorem runOps {ops : List (SeqOp R D)} (hs : Sound applyChanges seq)
    (hops : ∀ op ∈ ops, MovesTip op) (hrun : Dugite.runOps applyChanges seq ops = some seq') :
    Marked k interval seq' (ops.foldl (lengthsAfter k) lengths) := by
  induction ops generalizing seq lengths with
  | nil => exact Option.some.inj hrun ▸ h
  | cons op ops ih =>
    obtain ⟨next, hop, hrest⟩ := Option.bind_eq_some_iff.1 hrun
    rw [forall_mem_cons] at hops
    exact ih (h.run hs.window hops.1 hop) (hs.run hop).1 hops.2 hrest

/-- A reconstruction starts behind the last mark. -/
theorem replayStart_spec (index : Nat) :
    (∀ j ∈ marks interval lengths, j ≤ index → j < seq.replayStart index) ∧
      (seq.replayStart index = 0 ∨
        ∃ j ∈ marks interval lengths, j ≤ index ∧ seq.replayStart index = j + 1) := by
  have hnear : (seq.nearestCheckpoint index).map (·.1) =
      ((marks interval lengths).filter (· ≤ index)).getLast? := by
    rw [← h.marked, filter_map, getLast?_map]
    rfl
  have hsorted : ((marks interval lengths).filter (· ≤ index)).Pairwise (· < ·) :=
    (pairwise_lt_range.filter _).filter _
  unfold replayStart
  cases hcp : seq.nearestCheckpoint index with
  | none =>
    rw [hcp, Option.map_none] at hnear
    have hnone := getLast?_eq_none_iff.1 hnear.symm
    rw [filter_eq_nil_iff] at hnone
    exact ⟨fun j hj hle => absurd (decide_eq_true hle) (hnone j hj), .inl rfl⟩
  | some e =>
    rw [hcp, Option.map_some] at hnear
    obtain ⟨before, hbefore⟩ := getLast?_eq_some_iff.1 hnear.symm
    have hlast := mem_filter.1 (hbefore ▸ mem_append_right before (mem_singleton_self e.1))
    refine ⟨fun j hj hle => ?_, .inr ⟨e.1, hlast.1, of_decide_eq_true hlast.2, rfl⟩⟩
    have hmem : j ∈ (marks interval lengths).filter (· ≤ index) :=
      mem_filter.2 ⟨hj, decide_eq_true hle⟩
    rw [hbefore] at hmem hsorted
    rcases mem_append.1 hmem with hmem | hmem
    · exact Nat.lt_succ_of_lt ((pairwise_append.1 hsorted).2.2 j hmem e.1 (mem_singleton_self _))
    · rw [mem_singleton.1 hmem]
      exact Nat.lt_succ_self _

theorem bounded_iff : (∀ index < seq.deltas.length, (seq.replayed index).length ≤ interval) ↔
    Dense interval lengths := by
  have hlength : ∀ index < seq.deltas.length, (seq.replayed index).length =
      index + 1 - seq.replayStart index := by
    intro index hi
    rw [replayed, length_take, length_drop]
    omega
  rw [Dense, h.length]
  constructor
  · intro hb a ha
    have hbound := hb (a + interval) ha
    rw [hlength _ ha] at hbound
    obtain hzero | ⟨j, hj, hle, hstart⟩ := (h.replayStart_spec (a + interval)).2
    · omega
    · obtain ⟨l, hl⟩ := mem_marks.1 hj
      exact ⟨j, l, by omega, hle, hl⟩
  · intro hdense index hi
    rw [hlength index hi]
    by_cases hsmall : index < interval
    · omega
    · obtain ⟨j, l, hlow, hhigh, hl⟩ := hdense (index - interval) (by omega)
      have := (h.replayStart_spec index).1 j (mem_marks.2 ⟨l, hl⟩) (by omega)
      omega

end Marked

/-! ## Pushes alone -/

/-- The lengths after some pushes. -/
def pushLengths (k pushes : Nat) : List Nat :=
  (range (min pushes k)).map fun j => min (j + 1 + (pushes - k)) k

theorem foldl_push (k : Nat) {ops : List (SeqOp R D)} (hops : ∀ op ∈ ops, IsPush op) :
    ops.foldl (lengthsAfter k) [] = pushLengths k ops.length := by
  induction ops using reverseRecOn with
  | nil => simp [pushLengths]
  | append_singleton ops op ih =>
    rw [forall_mem_append, forall_mem_singleton] at hops
    rw [foldl_append, foldl_cons, foldl_nil, ih hops.1, length_append, length_singleton]
    match op, hops.2 with
    | .push delta, _ =>
      refine ext_getElem (by simp [lengthsAfter, pushLengths]; omega) fun j hj hj' => ?_
      simp [lengthsAfter, pushLengths, getElem_append] at hj ⊢
      split <;> omega

/-- A stretch of an interval has a multiple. -/
theorem exists_multiple {interval : Nat} (hinterval : 0 < interval) (a : Nat) :
    ∃ m, interval ∣ m ∧ a < m ∧ m ≤ a + interval := by
  refine ⟨interval * (a / interval + 1), dvd_mul_right _ _, lt_mul_div_succ a hinterval, ?_⟩
  rw [Nat.mul_add_one]
  exact Nat.add_le_add_right (mul_div_le a interval) interval

theorem dense_pushLengths_iff {k interval : Nat} (hinterval : 0 < interval) (pushes : Nat) :
    (∀ p ≤ pushes, Dense interval (pushLengths k p)) ↔
      k ≤ interval ∨ interval ∣ k ∨ pushes ≤ interval * (k / interval + 1) := by
  have hdiv := div_add_mod k interval
  have hmod := mod_lt k hinterval
  rw [Nat.mul_add_one]
  constructor
  · intro hdense
    by_contra hnot
    push Not at hnot
    obtain ⟨hlong, hnodvd, hmany⟩ := hnot
    have hpos : k % interval ≠ 0 := fun h => hnodvd (dvd_of_mod_eq_zero h)
    obtain ⟨j, l, hlow, hhigh, hl, c, rfl⟩ :=
      hdense (interval * (k / interval) + interval + 1) hmany (k - interval - 1)
        (by simp [pushLengths]; omega)
    simp only [pushLengths, getElem?_map, Option.map_eq_some_iff] at hl
    obtain ⟨j', hj', heq⟩ := hl
    obtain ⟨hlt, rfl⟩ := List.getElem?_eq_some_iff.1 hj'
    rw [getElem_range] at heq
    -- a multiple beyond the last one up to `k`
    have hbelow : interval * c < interval * (k / interval + 1) := by rw [Nat.mul_add_one]; omega
    have habove : interval * (k / interval) < interval * c := by omega
    have := Nat.lt_of_mul_lt_mul_left hbelow
    have := Nat.lt_of_mul_lt_mul_left habove
    omega
  · intro h p hp a ha
    have ha' : a + interval < min p k := by simpa [pushLengths] using ha
    -- what the entries hold
    have hentry : ∀ j < min p k, (pushLengths k p)[j]? = some (min (j + 1 + (p - k)) k) := by
      intro j hj
      simp [pushLengths, hj]
    obtain ⟨m, hm, hlow, hhigh⟩ := exists_multiple hinterval (a + (p - k))
    by_cases hfits : m ≤ k
    · refine ⟨m - 1 - (p - k), m, by omega, by omega, ?_, hm⟩
      rw [hentry _ (by omega)]
      congr 1
      omega
    · rcases h with hshort | hdvd | hfew
      · omega
      · refine ⟨a + interval, k, by omega, le_refl _, ?_, hdvd⟩
        rw [hentry _ (by omega)]
        congr 1
        omega
      · refine ⟨interval * (k / interval) - 1 - (p - k), interval * (k / interval), by omega,
          by omega, ?_, dvd_mul_right _ _⟩
        rw [hentry _ (by omega)]
        congr 1
        omega

section
variable (applyChanges : LedgerCore R → D → LedgerCore R) (anchor : SeqState R)
  (k checkpointInterval : Nat)

/-- Every reconstruction in every state of a run applies at most `checkpointInterval` deltas. -/
def ReplayBounded (ops : List (SeqOp R D)) : Prop :=
  ∀ n seq, runOps applyChanges (new anchor k checkpointInterval) (ops.take n) = some seq →
    ∀ index < seq.deltas.length, (seq.replayed index).length ≤ checkpointInterval

variable {k checkpointInterval} {ops : List (SeqOp R D)}

theorem replayBounded_iff_dense (hinterval : 0 < checkpointInterval)
    (hops : ∀ op ∈ ops, MovesTip op) :
    ReplayBounded applyChanges anchor k checkpointInterval ops ↔
      ∀ n, Dense checkpointInterval ((ops.take n).foldl (lengthsAfter k) []) := by
  have hnew : Marked k checkpointInterval (new anchor k checkpointInterval : LedgerSeq R D) [] :=
    ⟨⟨rfl, rfl, rfl⟩, rfl, rfl⟩
  have hs : Sound applyChanges (new anchor k checkpointInterval) := sound_new _ _ _
  have hrun : ∀ n seq, runOps applyChanges (new anchor k checkpointInterval) (ops.take n) =
      some seq → ((∀ index < seq.deltas.length, (seq.replayed index).length ≤ checkpointInterval) ↔
        Dense checkpointInterval ((ops.take n).foldl (lengthsAfter k) [])) := fun n seq hrun =>
    (hnew.runOps hs (fun op hop => hops op (mem_of_mem_take hop)) hrun).bounded_iff
  refine ⟨fun hall n => ?_, fun hall n seq h => (hrun n seq h).2 (hall n)⟩
  rcases Nat.eq_zero_or_pos k with rfl | hk
  · exact fun a ha => absurd (length_lengthsAfter_le 0 (ops.take n)) (by omega)
  · obtain ⟨seq, h⟩ := Option.isSome_iff_exists.1 (isSome_runOps hs hk (ops.take n))
    exact (hrun n seq h).1 (hall n seq h)

/-- A run of pushes and rollbacks keeps the bound exactly if, at every moment, of the deltas in a
row that are one more than an interval one was pushed onto a multiple of it. Without rollbacks that
is so if the window is no longer than an interval or a multiple of it, and else for a limited number
of pushes. -/
theorem replay_bounded_iff (hinterval : 0 < checkpointInterval)
    (hops : ∀ op ∈ ops, MovesTip op) :
    (ReplayBounded applyChanges anchor k checkpointInterval ops ↔
      ∀ n, Dense checkpointInterval ((ops.take n).foldl (lengthsAfter k) [])) ∧
    ((∀ op ∈ ops, IsPush op) → (ReplayBounded applyChanges anchor k checkpointInterval ops ↔
      k ≤ checkpointInterval ∨ checkpointInterval ∣ k ∨
        ops.length ≤ checkpointInterval * (k / checkpointInterval + 1))) := by
  refine ⟨replayBounded_iff_dense _ _ hinterval hops, fun hpushes => ?_⟩
  rw [replayBounded_iff_dense _ _ hinterval hops, ← dense_pushLengths_iff hinterval]
  have htake : ∀ n, (ops.take n).foldl (lengthsAfter k) [] = pushLengths k (min n ops.length) := by
    intro n
    rw [foldl_push k fun op hop => hpushes op (mem_of_mem_take hop), length_take]
  simp only [htake]
  constructor
  · intro h p hp
    rw [← Nat.min_eq_left hp]
    exact h p
  · exact fun h n => h _ (Nat.min_le_right _ _)

end

/-- Pushes of blocks with these numbers. -/
def pushBlocks (numbers : List Nat) : List (SeqOp Nat Nat) := numbers.map (.push <| numberedBlock ·)

/-- A window of twice the interval has a checkpoint at every push once it is full. -/
theorem window_of_four_bounded :
    ReplayBounded addToRest genesisState 4 2 (pushBlocks [1, 2, 3, 4, 5, 6, 7]) := by
  refine ((replay_bounded_iff addToRest genesisState (by decide) ?_).2 ?_).2 (.inr (.inl (by decide)))
  · simp [pushBlocks, MovesTip]
  · simp [pushBlocks, IsPush]

/-- With an interval of two, five pushes onto a window of three leave it without a checkpoint. -/
theorem window_of_three_replays_three :
    ∃ seq, runOps addToRest (new genesisState 3 2) (pushBlocks [1, 2, 3, 4, 5]) = some seq ∧
      seq.deltas.length = 3 ∧ seq.checkpointInterval = 2 ∧ (seq.replayed 2).length = 3 :=
  ⟨_, rfl, rfl, rfl, rfl⟩

end Dugite.LedgerSeq
