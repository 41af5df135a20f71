import Dugite.Ledger.Stake
import Dugite.Lib.Replay

/-!
# The volatile window of ledger states

`LedgerSeq` keeps the ledger states of the last blocks as a full state (the anchor), one delta for
each block since, and checkpoints that make it cheaper to get at the states in between. A state that
is reconstructed has no UTxO set to speak of: it starts from a copy without one.

Of `apply_delta_to_state` the part that reads the UTxO diff is modelled; the snapshots and changes
that a delta applies afterwards are a function of the state without the UTxO set, which they do not
read, and of the delta. The comparison of states is over all of that state (`LedgerCore`).
-/

namespace Dugite

open List Option Nat

/-- The ledger state without the UTxO set: the tip, the stake of the unspent outputs, whether stake at
pointers counts, and the rest. -/
structure LedgerCore (R : Type) where
  tip : Tip
  maps : StakeMaps
  ptrStakeExcluded : Bool
  rest : R

/-- A ledger state. -/
structure SeqState (R : Type) where
  utxoSet : UtxoSet
  core : LedgerCore R

/-- What a block does to the ledger state. -/
structure LedgerDelta (D : Type) where
  slot : Nat
  hash : Hash32
  blockNo : Nat
  parentPoint : Option Point
  utxoDiff : UtxoDiff
  /-- The recorded changes and the snapshots of what the block left. -/
  changes : D

def SeqState.cloneWithoutUtxos {R : Type} (state : SeqState R) : SeqState R :=
  { state with utxoSet := ∅ }

structure LedgerSeq (R D : Type) where
  anchor : SeqState R
  anchorPoint : Point
  deltas : List (LedgerDelta D) := []
  /-- Positions with the states after them, in ascending order. -/
  checkpoints : List (Nat × SeqState R) := []
  checkpointInterval : Nat
  k : Nat
  catchupMode : Bool := false
  incoherent : Bool := false

variable {R D : Type} (applyChanges : LedgerCore R → D → LedgerCore R)

def applyDeltaToState (state : SeqState R) (delta : LedgerDelta D) : SeqState R :=
  let (utxoSet, maps) := applyUtxoDiff state.core.ptrStakeExcluded delta.utxoDiff
    (state.utxoSet, state.core.maps)
  let core := applyChanges { state.core with maps } delta.changes
  { utxoSet, core := { core with tip := ⟨.specific delta.slot delta.hash, delta.blockNo⟩ } }

namespace LedgerSeq

def new (anchor : SeqState R) (k checkpointInterval : Nat) : LedgerSeq R D where
  anchor := anchor
  anchorPoint := anchor.core.tip.point
  checkpointInterval := checkpointInterval
  k := k

def setCatchupMode (catchup : Bool) (seq : LedgerSeq R D) : LedgerSeq R D :=
  { seq with catchupMode := catchup }

section
variable (seq : LedgerSeq R D)

def tipPoint : Point :=
  match seq.deltas.getLast? with
  | some d => .specific d.slot d.hash
  | none => seq.anchorPoint

/-- The last checkpoint at or before a position. -/
def nearestCheckpoint (index : Nat) : Option (Nat × SeqState R) :=
  (seq.checkpoints.filter fun e => e.1 ≤ index).getLast?

/-- The state after the first `index + 1` deltas. -/
def stateAtIndex (index : Nat) : SeqState R :=
  let (startIndex, baseState) := match seq.nearestCheckpoint index with
    | some (cpIdx, cpState) => (cpIdx + 1, cpState)
    | none => (0, seq.anchor.cloneWithoutUtxos)
  ((seq.deltas.drop startIndex).take (index + 1 - startIndex)).foldl
    (applyDeltaToState applyChanges) baseState

def tipState : SeqState R :=
  if seq.deltas.isEmpty then seq.anchor.cloneWithoutUtxos
  else seq.stateAtIndex applyChanges (seq.deltas.length - 1)

/-- Apply the oldest delta to the anchor. -/
def advanceAnchor : LedgerSeq R D :=
  match seq.deltas with
  | [] => seq
  | oldest :: deltas =>
    { seq with
      anchor := applyDeltaToState applyChanges seq.anchor oldest
      anchorPoint := .specific oldest.slot oldest.hash
      deltas
      checkpoints := seq.checkpoints.filterMap fun e =>
        if e.1 = 0 then none else some (e.1 - 1, e.2) }

end

/-- The loop that makes room in the window. It does not end on an empty window that is full; the
fuel is enough when it ends. -/
def makeRoom : Nat → LedgerSeq R D → Option (LedgerSeq R D)
  | 0, _ => none
  | fuel + 1, seq =>
    if seq.k ≤ seq.deltas.length then makeRoom fuel (seq.advanceAnchor applyChanges) else some seq

/-- `BTreeMap::insert`. -/
def insertCheckpoint (index : Nat) (state : SeqState R) (checkpoints : List (Nat × SeqState R)) :
    List (Nat × SeqState R) :=
  checkpoints.filter (fun e => e.1 < index) ++ (index, state) ::
    checkpoints.filter fun e => index < e.1

section
variable (delta : LedgerDelta D) (seq : LedgerSeq R D)

/-- A delta that does not continue the tip makes the window incoherent. -/
def noteParent : LedgerSeq R D :=
  match delta.parentPoint with
  | some parent => if parent ≠ seq.tipPoint then { seq with incoherent := true } else seq
  | none => seq

/-- Append a delta. -/
def append : LedgerSeq R D :=
  let seq := { seq with deltas := seq.deltas ++ [delta] }
  let newIdx := seq.deltas.length - 1
  if !seq.catchupMode && (newIdx + 1) % seq.checkpointInterval = 0 then
    { seq with checkpoints :=
        insertCheckpoint newIdx (seq.stateAtIndex applyChanges newIdx) seq.checkpoints }
  else seq

/-- `none` when the call does not return. -/
def push : Option (LedgerSeq R D) :=
  let seq := seq.noteParent delta
  (makeRoom applyChanges (seq.deltas.length + 1) seq).map (append applyChanges delta)

end

def rollback (n : Nat) (seq : LedgerSeq R D) : LedgerSeq R D :=
  let newLen := seq.deltas.length - min n seq.deltas.length
  { seq with
    deltas := seq.deltas.take newLen
    checkpoints := seq.checkpoints.filter fun e => e.1 < newLen }

def resetAnchor (newAnchor : SeqState R) (seq : LedgerSeq R D) : LedgerSeq R D :=
  { seq with
    anchor := newAnchor
    anchorPoint := newAnchor.core.tip.point
    deltas := []
    checkpoints := []
    incoherent := false }

end LedgerSeq

/-- A call that changes the window. -/
inductive SeqOp (R D : Type) where
  | push (delta : LedgerDelta D)
  | rollback (n : Nat)
  | advanceAnchor
  | resetAnchor (newAnchor : SeqState R)
  | setCatchupMode (catchup : Bool)

def SeqOp.run (seq : LedgerSeq R D) : SeqOp R D → Option (LedgerSeq R D)
  | .push delta => seq.push applyChanges delta
  | .rollback n => some (seq.rollback n)
  | .advanceAnchor => some (seq.advanceAnchor applyChanges)
  | .resetAnchor newAnchor => some (seq.resetAnchor newAnchor)
  | .setCatchupMode catchup => some (seq.setCatchupMode catchup)

/-- Some calls, one after the other. -/
def runOps (seq : LedgerSeq R D) (ops : List (SeqOp R D)) : Option (LedgerSeq R D) :=
  ops.foldlM (SeqOp.run applyChanges) seq

/-! ## States without the UTxO set -/

/-- A delta on the state without the UTxO set. -/
def applyCore (core : LedgerCore R) (delta : LedgerDelta D) : LedgerCore R :=
  (applyDeltaToState applyChanges ⟨∅, core⟩ delta).core

theorem core_applyDeltaToState (state : SeqState R) (delta : LedgerDelta D) :
    (applyDeltaToState applyChanges state delta).core =
      applyCore applyChanges state.core delta := by
  have hmaps : (applyUtxoDiff state.core.ptrStakeExcluded delta.utxoDiff
      (state.utxoSet, state.core.maps)).2 =
        (applyUtxoDiff state.core.ptrStakeExcluded delta.utxoDiff (∅, state.core.maps)).2 := by
    rw [applyUtxoDiff_maps, applyUtxoDiff_maps]
  unfold applyCore applyDeltaToState
  dsimp only
  rw [hmaps]

theorem core_foldl_applyDeltaToState (deltas : List (LedgerDelta D)) (state : SeqState R) :
    (deltas.foldl (applyDeltaToState applyChanges) state).core =
      deltas.foldl (applyCore applyChanges) state.core :=
  (List.foldl_hom SeqState.core fun s d => (core_applyDeltaToState applyChanges s d).symm).symm

namespace LedgerSeq

open Replay

/-- The checkpoints of a window are right. -/
def Checkpointed (seq : LedgerSeq R D) : Prop :=
  Replay.Checkpointed (applyCore applyChanges) SeqState.core seq.anchor.core seq.deltas
    seq.checkpoints

variable {applyChanges} {seq : LedgerSeq R D}

section
variable (h : seq.Checkpointed applyChanges)
include h

/-- From whichever checkpoint it starts, the reconstruction is the plain fold. -/
theorem Checkpointed.core_stateAtIndex (index : Nat) : (seq.stateAtIndex applyChanges index).core =
      (seq.deltas.take (index + 1)).foldl (applyCore applyChanges) seq.anchor.core := by
  unfold stateAtIndex
  cases hnear : seq.nearestCheckpoint index with
  | none =>
    rw [core_foldl_applyDeltaToState, drop_zero]
    rfl
  | some e =>
    obtain ⟨hmem, hle⟩ := mem_filter.1 (mem_of_getLast? hnear)
    rw [core_foldl_applyDeltaToState, Nat.add_sub_add_right]
    exact h.resume hmem (of_decide_eq_true hle)

theorem Checkpointed.core_tipState : (seq.tipState applyChanges).core =
      seq.deltas.foldl (applyCore applyChanges) seq.anchor.core := by
  unfold tipState
  split
  · next hempty =>
    rw [List.isEmpty_iff.1 hempty]
    rfl
  · next hne =>
    rw [h.core_stateAtIndex, take_of_length_le (by omega)]

/-! ## What each call does -/

theorem Checkpointed.advanceAnchor :
    (seq.advanceAnchor applyChanges).Checkpointed applyChanges := by
  unfold LedgerSeq.advanceAnchor
  split
  · exact h
  next oldest deltas hdeltas =>
  unfold Checkpointed at h ⊢
  rw [hdeltas] at h
  rw [core_applyDeltaToState]
  exact h.shift

end

theorem deltas_advanceAnchor (seq : LedgerSeq R D) :
    (seq.advanceAnchor applyChanges).deltas = seq.deltas.tail := by
  unfold LedgerSeq.advanceAnchor
  split
  · next hdeltas => rw [hdeltas, tail_nil]
  · next hdeltas => rw [hdeltas, tail_cons]

theorem k_advanceAnchor (seq : LedgerSeq R D) : (seq.advanceAnchor applyChanges).k = seq.k := by
  unfold LedgerSeq.advanceAnchor
  split <;> rfl

/-- The tip is the same before and after. -/
theorem Checkpointed.core_tipState_advanceAnchor (h : seq.Checkpointed applyChanges) :
    ((seq.advanceAnchor applyChanges).tipState applyChanges).core =
      (seq.tipState applyChanges).core := by
  rw [h.advanceAnchor.core_tipState, h.core_tipState]
  unfold LedgerSeq.advanceAnchor
  split
  · rfl
  · next oldest deltas hdeltas =>
    rw [hdeltas, foldl_cons, core_applyDeltaToState]

variable {seq' : LedgerSeq R D} {fuel : Nat}

/-- When room was made, the window has some, and its checkpoints are right. -/
theorem makeRoom_spec (h : seq.Checkpointed applyChanges)
    (hroom : makeRoom applyChanges fuel seq = some seq') :
    seq'.Checkpointed applyChanges ∧ seq'.deltas.length < seq'.k ∧ seq'.k = seq.k := by
  induction fuel generalizing seq with
  | zero => cases hroom
  | succ fuel ih =>
    rw [makeRoom] at hroom
    split at hroom
    · obtain ⟨hcps, hlt, hk⟩ := ih h.advanceAnchor hroom
      exact ⟨hcps, hlt, hk.trans (k_advanceAnchor seq)⟩
    · next hroomy =>
      obtain rfl := some.inj hroom
      exact ⟨h, Nat.lt_of_not_le hroomy, rfl⟩

/-- A window that may hold a delta at all gets room. -/
theorem isSome_makeRoom (hk : 0 < seq.k) (hfuel : seq.deltas.length ≤ fuel) :
    (makeRoom applyChanges (fuel + 1) seq).isSome := by
  induction fuel generalizing seq with
  | zero =>
    rw [makeRoom, if_neg (by omega)]
    rfl
  | succ fuel ih =>
    rw [makeRoom]
    split
    · refine ih ?_ ?_
      · rw [k_advanceAnchor]
        exact hk
      · rw [deltas_advanceAnchor, length_tail]
        omega
    · rfl

theorem Checkpointed.append (h : seq.Checkpointed applyChanges) (delta : LedgerDelta D) :
    (seq.append applyChanges delta).Checkpointed applyChanges := by
  have hpushed : Checkpointed applyChanges { seq with deltas := seq.deltas ++ [delta] } :=
    h.concat delta
  unfold LedgerSeq.append
  dsimp only
  split
  · intro e he
    rcases mem_append.1 he with hold | hnew
    · exact hpushed e (mem_of_mem_filter hold)
    rcases mem_cons.1 hnew with rfl | hold
    · refine ⟨?_, hpushed.core_stateAtIndex _⟩
      rw [length_append, length_singleton]
      omega
    · exact hpushed e (mem_of_mem_filter hold)
  · exact hpushed

variable (delta : LedgerDelta D)

theorem deltas_append (seq : LedgerSeq R D) :
    (seq.append applyChanges delta).deltas = seq.deltas ++ [delta] := by
  unfold LedgerSeq.append
  dsimp only
  split <;> rfl

theorem k_append (seq : LedgerSeq R D) : (seq.append applyChanges delta).k = seq.k := by
  unfold LedgerSeq.append
  dsimp only
  split <;> rfl

/-! ## Runs -/

/-- The checkpoints are right and the window is no longer than it may be. -/
structure Sound (applyChanges : LedgerCore R → D → LedgerCore R) (seq : LedgerSeq R D) : Prop where
  checkpointed : seq.Checkpointed applyChanges
  window : seq.deltas.length ≤ seq.k

theorem sound_new (anchor : SeqState R) (k checkpointInterval : Nat) :
    Sound applyChanges (new anchor k checkpointInterval) where
  checkpointed := Replay.Checkpointed.nil _ _
  window := zero_le k

theorem noteParent_frame (seq : LedgerSeq R D) :
    seq.noteParent delta = { seq with incoherent := (seq.noteParent delta).incoherent } := by
  unfold noteParent
  repeat' split
  all_goals rfl

section
variable (h : Sound applyChanges seq)
include h

theorem Sound.push {delta : LedgerDelta D} (hpush : seq.push applyChanges delta = some seq') :
    Sound applyChanges seq' ∧ seq'.k = seq.k := by
  obtain ⟨roomy, hroom, rfl⟩ := map_eq_some_iff.1 hpush
  have hnoted : (seq.noteParent delta).Checkpointed applyChanges := by
    rw [noteParent_frame]
    exact h.checkpointed
  obtain ⟨hcps, hlt, hk⟩ := makeRoom_spec hnoted hroom
  have hkept : (seq.noteParent delta).k = seq.k := by rw [noteParent_frame]
  refine ⟨⟨hcps.append delta, ?_⟩, (k_append delta roomy).trans (hk.trans hkept)⟩
  rw [deltas_append, k_append, length_append, length_singleton]
  exact hlt

theorem Sound.rollback (n : Nat) : Sound applyChanges (seq.rollback n) where
  checkpointed := h.checkpointed.truncate _
  window := by
    have hwindow := h.window
    unfold LedgerSeq.rollback
    dsimp only
    rw [length_take]
    omega

theorem Sound.advanceAnchor : Sound applyChanges (seq.advanceAnchor applyChanges) where
  checkpointed := h.checkpointed.advanceAnchor
  window := by
    have hwindow := h.window
    rw [deltas_advanceAnchor, k_advanceAnchor, length_tail]
    omega

/-- One call keeps the window sound and the security parameter. -/
theorem Sound.run {op : SeqOp R D}
    (hrun : op.run applyChanges seq = some seq') : Sound applyChanges seq' ∧ seq'.k = seq.k := by
  cases op with
  | push delta => exact h.push hrun
  | rollback n =>
    obtain rfl := some.inj hrun
    exact ⟨h.rollback n, rfl⟩
  | advanceAnchor =>
    obtain rfl := some.inj hrun
    exact ⟨h.advanceAnchor, k_advanceAnchor seq⟩
  | resetAnchor newAnchor =>
    obtain rfl := some.inj hrun
    exact ⟨⟨Replay.Checkpointed.nil _ _, zero_le _⟩, rfl⟩
  | setCatchupMode catchup =>
    obtain rfl := some.inj hrun
    exact ⟨{ h with }, rfl⟩

end

/-- A call returns unless the window may hold nothing. -/
theorem isSome_run (hk : 0 < seq.k) (op : SeqOp R D) : (op.run applyChanges seq).isSome := by
  cases op with
  | push delta =>
    have hkept : (seq.noteParent delta).k = seq.k := by rw [noteParent_frame]
    refine isSome_map.trans (isSome_makeRoom ?_ (le_refl _))
    rw [hkept]
    exact hk
  | _ => rfl

theorem Sound.runOps {ops : List (SeqOp R D)} (h : Sound applyChanges seq)
    (hrun : Dugite.runOps applyChanges seq ops = some seq') :
    Sound applyChanges seq' ∧ seq'.k = seq.k := by
  induction ops generalizing seq with
  | nil =>
    obtain rfl := some.inj hrun
    exact ⟨h, rfl⟩
  | cons op ops ih =>
    obtain ⟨next, hop, hrest⟩ := bind_eq_some_iff.1 hrun
    obtain ⟨hnext, hk⟩ := h.run hop
    obtain ⟨hend, hk'⟩ := ih hnext hrest
    exact ⟨hend, hk'.trans hk⟩

theorem isSome_runOps (h : Sound applyChanges seq) (hk : 0 < seq.k) (ops : List (SeqOp R D)) :
    (Dugite.runOps applyChanges seq ops).isSome := by
  induction ops generalizing seq with
  | nil => rfl
  | cons op ops ih =>
    obtain ⟨next, hop⟩ := isSome_iff_exists.1 (isSome_run hk op)
    obtain ⟨hnext, hkept⟩ := h.run hop
    have hrun : Dugite.runOps applyChanges seq (op :: ops) = Dugite.runOps applyChanges next ops :=
      congrArg (· >>= fun seq => ops.foldlM (SeqOp.run applyChanges) seq) hop
    rw [hrun]
    exact ih hnext (hkept ▸ hk)

/-- Along every sequence of calls the reconstruction at a position of the window is, on everything
but the UTxO set, the fold of the deltas over the anchor; the checkpoints stand at deltas, the window
has at most `k` deltas, and moving the anchor leaves the state at the tip as it is. With a positive
`k` every call returns. -/
theorem reconstruction_is_fold (applyChanges : LedgerCore R → D → LedgerCore R)
    (anchor : SeqState R) (k checkpointInterval : Nat) (ops : List (SeqOp R D)) :
    (0 < k → (Dugite.runOps applyChanges (new anchor k checkpointInterval) ops).isSome) ∧
      ∀ seq, Dugite.runOps applyChanges (new anchor k checkpointInterval) ops = some seq →
        (∀ i < seq.deltas.length, (seq.stateAtIndex applyChanges i).core =
          ((seq.deltas.take (i + 1)).foldl (applyDeltaToState applyChanges) seq.anchor).core) ∧
        (∀ e ∈ seq.checkpoints, e.1 < seq.deltas.length) ∧
        seq.deltas.length ≤ k ∧
        ((seq.advanceAnchor applyChanges).tipState applyChanges).core =
          (seq.tipState applyChanges).core := by
  have hnew : Sound applyChanges (new anchor k checkpointInterval) := sound_new _ _ _
  refine ⟨fun hk => isSome_runOps hnew hk ops, fun seq hrun => ?_⟩
  obtain ⟨hsound, hk⟩ := hnew.runOps hrun
  refine ⟨fun i _ => ?_, fun e he => (hsound.checkpointed e he).1,
    le_trans hsound.window (le_of_eq hk),
    hsound.checkpointed.core_tipState_advanceAnchor⟩
  rw [hsound.checkpointed.core_stateAtIndex, core_foldl_applyDeltaToState]

/-! ## A window of two -/

/-- The rest of the state is a number, and a block adds to it. -/
def addToRest (core : LedgerCore Nat) (n : Nat) : LedgerCore Nat :=
  { core with rest := core.rest + n }

def genesisState : SeqState Nat := ⟨∅, ⟨⟨.origin, 0⟩, {}, false, 0⟩⟩

def numberedBlock (n : Nat) : LedgerDelta Nat := ⟨n, BitVec.ofNat 256 n, n, none, {}, n⟩

theorem window_of_two_reconstructs :
    ∃ seq, Dugite.runOps addToRest (new genesisState 2 1)
        [.push (numberedBlock 1), .push (numberedBlock 2), .push (numberedBlock 3), .rollback 1,
          .setCatchupMode true, .push (numberedBlock 4)] = some seq ∧
      (seq.stateAtIndex addToRest 1).core =
        ((seq.deltas.take 2).foldl (applyDeltaToState addToRest) seq.anchor).core := by
  obtain ⟨hreturns, hfold⟩ := reconstruction_is_fold addToRest genesisState 2 1
    [.push (numberedBlock 1), .push (numberedBlock 2), .push (numberedBlock 3), .rollback 1,
      .setCatchupMode true, .push (numberedBlock 4)]
  obtain ⟨seq, hseq⟩ := isSome_iff_exists.1 (hreturns (by decide))
  have hlen : seq.deltas.length = 2 := by
    rw [← some.inj hseq]
    rfl
  exact ⟨seq, hseq, (hfold seq hseq).1 1 (by omega)⟩

end LedgerSeq

end Dugite
