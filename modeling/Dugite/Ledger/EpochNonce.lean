import Dugite.Crypto.Primitives
import Dugite.Lib.Listing
import Dugite.Validation.Context

/-!
# The nonce of the next epoch

A header of the next epoch is checked before the ledger has crossed the boundary, so its nonce is
forecast (`epochNonceForSlot`): the candidate, the nonce of the last block of the previous epoch and
the extra entropy that the pending update will put in force. The boundary combines the same three
only in the eras of TPraos. From Babbage on it leaves the extra entropy out, and in Byron it leaves
the nonce alone. `epochNonceForSlot_iff` says when the two agree.
-/

namespace Dugite

open Crypto

/-! ## The vote on an update before Conway -/

/-- An update of the parameters before Conway, which may set the extra entropy. -/
structure LegacyParamUpdate extends ProtocolParamUpdate where
  extraEntropy : Option Hash32 := none
  deriving DecidableEq

/-- `hash32_to_hash28`: the leading 28 bytes. -/
def Hash32.truncate (h : Hash32) : Hash28 := h.extractLsb' 32 224

/-- `fold_pp_proposals`: the last proposal of each genesis key. -/
def foldPpProposals (proposals : List (Hash32 × LegacyParamUpdate)) :
    FinMap Hash28 LegacyParamUpdate :=
  proposals.foldl (fun map e => map.insert e.1.truncate e.2) ∅

/-- One more vote for an update. -/
def addVote (update : LegacyParamUpdate) :
    List (LegacyParamUpdate × Nat) → List (LegacyParamUpdate × Nat)
  | [] => [(update, 1)]
  | (p, count) :: tally =>
    if p = update then (p, count + 1) :: tally else (p, count) :: addVote update tally

/-- `voted_future_pparams`: the only update with a quorum, if its sizes fit together. -/
def votedFuturePparams (proposed : FinMap Hash28 LegacyParamUpdate) (quorum : Nat)
    (current : ProtocolParameters) : Option LegacyParamUpdate :=
  let votes := (Listing.entries BitVec.toNat Hash28.eq_of_toNat proposed).map (·.2)
  if votes = [] ∨ quorum = 0 then none
  else
    let tally := votes.foldl (fun tally update => addVote update tally) []
    match (tally.filter fun e => quorum ≤ e.2).map (·.1) with
    | [winner] =>
      let maxTx := winner.maxTxSize.getD current.maxTxSize
      let maxHeader := winner.maxBlockHeaderSize.getD current.maxBlockHeaderSize
      let maxBody := winner.maxBlockBodySize.getD current.maxBlockBodySize
      if maxBody ≤ satAdd maxTx maxHeader then none else some winner
    | _ => none

/-! ## The nonces -/

variable (P : Crypto)

/-- `combine_nonce`; zero is the neutral nonce. -/
def combineNonce (a b : Hash32) : Hash32 :=
  if a = 0 then b else if b = 0 then a else P.blake2b256 (a.toBytes ++ b.toBytes)

inductive EpochNonceMode where
  | tpraos
  | praos

def Era.usesTpraos : Era → Bool
  | .shelley | .allegra | .mary | .alonzo => true
  | _ => false

def EpochNonceMode.forEra (era : Era) : EpochNonceMode := if era.usesTpraos then .tpraos else .praos

def computeEpochBoundaryNonce (mode : EpochNonceMode)
    (candidateNonce lastEpochBlockNonce extraEntropy : Hash32) : Hash32 :=
  let twoTerm := combineNonce P candidateNonce lastEpochBlockNonce
  match mode with
  | .tpraos => combineNonce P twoTerm extraEntropy
  | .praos => twoTerm

/-- What the nonces depend on: of the ledger the position and the pending updates, and of the
consensus sub-state the nonces themselves. -/
structure NonceState where
  (epoch epochLength byronEpochLength shelleyTransitionEpoch updateQuorum : Nat)
  protocolParams : ProtocolParameters
  /-- The proposals of each epoch. -/
  pendingPpUpdates : FinMap Nat (List (Hash32 × LegacyParamUpdate))
  (epochNonce candidateNonce lastEpochBlockNonce labNonce extraEntropy : Hash32)

namespace NonceState

variable (s : NonceState)

def epochOfSlot (slot : Nat) : Nat :=
  let byronSlots := min (s.byronEpochLength * s.shelleyTransitionEpoch) u64Max
  if slot < byronSlots then slot / s.byronEpochLength
  else satAdd s.shelleyTransitionEpoch ((slot - byronSlots) / s.epochLength)

def forecastExtraEntropyForEpoch (targetEpoch : Nat) : Hash32 :=
  if targetEpoch ≠ satAdd s.epoch 1 then s.extraEntropy
  else match s.pendingPpUpdates.lookup (satSub targetEpoch 1) with
    | none => s.extraEntropy
    | some proposals =>
      match votedFuturePparams (foldPpProposals proposals) s.updateQuorum s.protocolParams with
      | none => s.extraEntropy
      | some winner => winner.extraEntropy.getD s.extraEntropy

def epochNonceForSlot (slot : Nat) : Hash32 :=
  let blockEpoch := s.epochOfSlot slot
  if blockEpoch ≤ s.epoch then s.epochNonce
  else if blockEpoch = satAdd s.epoch 1 then
    combineNonce P (combineNonce P s.candidateNonce s.lastEpochBlockNonce)
      (s.forecastExtraEntropyForEpoch blockEpoch)
  else s.epochNonce

/-- The update that is due at a boundary: of it, only the extra entropy is a nonce. -/
def enactExtraEntropy (newEpoch : Nat) : NonceState :=
  match s.pendingPpUpdates.lookup (satSub newEpoch 1) with
  | none => s
  | some proposals =>
    match votedFuturePparams (foldPpProposals proposals) s.updateQuorum s.protocolParams with
    | none => s
    | some winner => { s with extraEntropy := winner.extraEntropy.getD s.extraEntropy }

/-- The new nonce, and that of the last block for the epoch after. -/
def tickNonce (era : Era) : NonceState :=
  { s with
    epochNonce := computeEpochBoundaryNonce P (.forEra era) s.candidateNonce s.lastEpochBlockNonce
      s.extraEntropy
    lastEpochBlockNonce := s.labNonce }

/-- The nonces after `process_epoch_transition` of an era. Conway applies a pending update too, but
not its extra entropy. -/
def processEpochTransition (era : Era) (newEpoch : Nat) : NonceState :=
  match era with
  | .byron => s
  | .shelley | .allegra | .mary | .alonzo | .babbage =>
    (s.enactExtraEntropy newEpoch).tickNonce P era
  | .conway | .dijkstra => s.tickNonce P era

/-- The forecast is what the boundary does: with TPraos always, from Babbage on if there is no extra
entropy (or the hash returns its own argument), and in Byron, whose boundary installs nothing, if
the nonce in force is the only part that is not neutral or the hash of the two parts. -/
def ForecastExact (era : Era) : Prop :=
  let twoTerm := combineNonce P s.candidateNonce s.lastEpochBlockNonce
  let extra := s.forecastExtraEntropyForEpoch (s.epoch + 1)
  match era with
  | .byron =>
    twoTerm = 0 ∧ extra = s.epochNonce ∨ twoTerm ≠ 0 ∧ extra = 0 ∧ twoTerm = s.epochNonce ∨
      twoTerm ≠ 0 ∧ extra ≠ 0 ∧ P.blake2b256 (twoTerm.toBytes ++ extra.toBytes) = s.epochNonce
  | .shelley | .allegra | .mary | .alonzo => True
  | .babbage | .conway | .dijkstra =>
    extra = 0 ∨ twoTerm ≠ 0 ∧ P.blake2b256 (twoTerm.toBytes ++ extra.toBytes) = twoTerm

end NonceState

variable {P}

/-- Two nonces combine to the one that is not neutral, or to the hash of both. -/
theorem combineNonce_eq_iff {a b n : Hash32} :
    combineNonce P a b = n ↔ a = 0 ∧ b = n ∨ a ≠ 0 ∧ b = 0 ∧ a = n ∨
      a ≠ 0 ∧ b ≠ 0 ∧ P.blake2b256 (a.toBytes ++ b.toBytes) = n := by
  unfold combineNonce
  split
  · tauto
  split <;> tauto

theorem combineNonce_eq_left_iff {a b : Hash32} :
    combineNonce P a b = a ↔ b = 0 ∨ a ≠ 0 ∧ P.blake2b256 (a.toBytes ++ b.toBytes) = a := by
  rw [combineNonce_eq_iff]
  by_cases hzero : a = 0
  · rw [hzero]
    tauto
  · tauto

namespace NonceState

variable {s : NonceState}

/-- The forecast reads the update that the boundary enacts. -/
theorem extraEntropy_enact (h : s.epoch < u64Max) :
    (s.enactExtraEntropy (s.epoch + 1)).extraEntropy =
      s.forecastExtraEntropyForEpoch (s.epoch + 1) := by
  have htarget : satAdd s.epoch 1 = s.epoch + 1 := Nat.min_eq_left h
  rw [forecastExtraEntropyForEpoch, htarget, if_neg (not_not_intro rfl), enactExtraEntropy]
  cases s.pendingPpUpdates.lookup (satSub (s.epoch + 1) 1) with
  | none => rfl
  | some proposals =>
    dsimp only
    cases votedFuturePparams (foldPpProposals proposals) s.updateQuorum s.protocolParams <;> rfl

theorem enact_nonces (newEpoch : Nat) :
    (s.enactExtraEntropy newEpoch).candidateNonce = s.candidateNonce ∧
      (s.enactExtraEntropy newEpoch).lastEpochBlockNonce = s.lastEpochBlockNonce := by
  unfold enactExtraEntropy
  split
  · exact ⟨rfl, rfl⟩
  · split <;> exact ⟨rfl, rfl⟩

/-- For a slot of the next epoch, the nonce that is forecast is the one the boundary installs if and
only if the era and the extra entropy allow it. -/
theorem epochNonceForSlot_iff (P : Crypto) (s : NonceState) (era : Era) (slot : Nat)
    (hepoch : s.epoch < u64Max) (hslot : s.epochOfSlot slot = s.epoch + 1) :
    s.epochNonceForSlot P slot = (s.processEpochTransition P era (s.epoch + 1)).epochNonce ↔
      s.ForecastExact P era := by
  have htarget : satAdd s.epoch 1 = s.epoch + 1 := Nat.min_eq_left hepoch
  have hforecast : s.epochNonceForSlot P slot =
      combineNonce P (combineNonce P s.candidateNonce s.lastEpochBlockNonce)
        (s.forecastExtraEntropyForEpoch (s.epoch + 1)) := by
    simp only [epochNonceForSlot, hslot, htarget, if_true]
    exact if_neg (by omega)
  obtain ⟨hcandidate, hlast⟩ := s.enact_nonces (s.epoch + 1)
  have hextra := extraEntropy_enact hepoch
  rw [hforecast]
  cases era with
  | byron => exact combineNonce_eq_iff
  | shelley | allegra | mary | alonzo =>
    simp [processEpochTransition, tickNonce, computeEpochBoundaryNonce, EpochNonceMode.forEra,
      Era.usesTpraos, ForecastExact, hcandidate, hlast, hextra]
  | babbage =>
    simp only [processEpochTransition, tickNonce, computeEpochBoundaryNonce, EpochNonceMode.forEra,
      Era.usesTpraos, ForecastExact, hcandidate, hlast]
    exact combineNonce_eq_left_iff
  | conway | dijkstra => exact combineNonce_eq_left_iff

/-- The last slot of an epoch of ten, with some extra entropy left from an earlier update. -/
def lastSlot (extraEntropy : Hash32) : NonceState where
  epoch := 0
  epochLength := 10
  byronEpochLength := 1
  shelleyTransitionEpoch := 0
  updateQuorum := 5
  protocolParams :=
    { protocolVersionMajor := 8, protocolVersionMinor := 0, keyDeposit := 0, poolDeposit := 0
      drepDeposit := 0, govActionDeposit := 0, collateralPercentage := 150, maxTxExUnits := ⟨0, 0⟩ }
  pendingPpUpdates := ∅
  epochNonce := 1
  candidateNonce := 2
  lastEpochBlockNonce := 3
  labNonce := 4
  extraEntropy

theorem neutral_entropy_agrees : (lastSlot 0).epochOfSlot 10 = 1 ∧
    (lastSlot 0).epochNonceForSlot plain 10 =
      ((lastSlot 0).processEpochTransition plain .babbage 1).epochNonce :=
  ⟨by decide, (epochNonceForSlot_iff plain (lastSlot 0) .babbage 10 (by decide)
    (by decide)).2 (.inl (by decide +kernel))⟩

/-- Extra entropy that outlives Alonzo is forecast for an epoch of Babbage, which has none. -/
theorem sticky_entropy_disagrees : (lastSlot 5).epochOfSlot 10 = 1 ∧
    (lastSlot 5).epochNonceForSlot plain 10 ≠
      ((lastSlot 5).processEpochTransition plain .babbage 1).epochNonce := by
  decide +kernel

end NonceState

end Dugite
