import Dugite.Crypto.Primitives
import Dugite.Primitives.Transaction
import Mathlib.Data.Prod.Lex

/-!
# The preference between two chains

`preferChainWithHeaders` compares the tip of a candidate chain with the selected tip. In Byron it
compares densities (blocks per slot), in the later eras lengths; two chains of one length are told
apart by the operational certificates of one pool at one slot, and otherwise by the VRF outputs,
from Conway on only within a window of slots.

`BlockHeader.rank` is a measure that a candidate preferred outside Byron strictly improves
(`rank_lt_of_preferred`): the block number first, then the VRF output, then the certificate
counter. The counter decides only between blocks of one pool at one slot, so it comes last only
because such blocks carry one VRF output. A Byron tip ranks above the later eras' tips of its block
number, and among Byron tips the later slot ranks higher: an epoch boundary block has the number of
the block it follows.
-/

namespace Dugite

open OrderDual UInt8 Prod.Lex

def ProtocolVersion.era (pv : ProtocolVersion) : Era :=
  match pv.major with
  | 0 | 1 => .byron
  | 2 => .shelley
  | 3 => .allegra
  | 4 => .mary
  | 5 | 6 => .alonzo
  | 7 | 8 => .babbage
  | 9 | 10 | 11 => .conway
  | _ => .dijkstra

def Point.slot : Point → Option Nat
  | .origin => none
  | .specific slot _ => some slot

inductive ChainPreference where
  | preferCurrent
  | preferCandidate
  | equal
  deriving DecidableEq

/-- Compare VRF outputs as byte strings: the lower one wins. -/
def vrfTiebreak (currentVrf candidateVrf : Bytes) : ChainPreference :=
  if candidateVrf < currentVrf then .preferCandidate
  else if currentVrf < candidateVrf then .preferCurrent
  else .equal

/-- The tie-break of chains of one length. -/
def praosTiebreak (P : Crypto) (current candidate : BlockHeader) (era : Era) (slotWindow : Nat) :
    ChainPreference :=
  let currentPool := P.blake2b224 current.issuerVkey
  let candidatePool := P.blake2b224 candidate.issuerVkey
  if currentPool = candidatePool ∧ current.slot = candidate.slot then
    if candidate.operationalCert.sequenceNumber > current.operationalCert.sequenceNumber then
      .preferCandidate
    else if candidate.operationalCert.sequenceNumber < current.operationalCert.sequenceNumber then
      .preferCurrent
    else .equal
  else
    let isConway := era = .conway ∨ era = .dijkstra
    -- `abs_diff`
    let slotDiff := max current.slot candidate.slot - min current.slot candidate.slot
    if isConway ∧ slotWindow < slotDiff then .preferCurrent
    else vrfTiebreak current.vrfResult.output candidate.vrfResult.output

structure ChainSelection where
  currentTip : Tip

namespace ChainSelection

variable (sel : ChainSelection)

/-- The longest-chain rule. -/
def compareLength (candidate : Tip) : ChainPreference :=
  if candidate.blockNumber > sel.currentTip.blockNumber then .preferCandidate
  else if candidate.blockNumber < sel.currentTip.blockNumber then .preferCurrent
  else .equal

/-- The density rule of Byron, by cross-multiplication. -/
def compareDensity (candidate : Tip) : ChainPreference :=
  let currentSlot := sel.currentTip.point.slot.getD 0
  let candidateSlot := candidate.point.slot.getD 0
  let currentBlocks := sel.currentTip.blockNumber
  let candidateBlocks := candidate.blockNumber
  if currentSlot = 0 ∧ candidateSlot = 0 then sel.compareLength candidate
  else if candidateBlocks * currentSlot > currentBlocks * candidateSlot then .preferCandidate
  else if candidateBlocks * currentSlot < currentBlocks * candidateSlot then .preferCurrent
  else .equal

def preferChainWithHeaders (P : Crypto) (candidate : Tip)
    (currentHeader candidateHeader : BlockHeader) (era : Era) (slotWindow : Nat) :
    ChainPreference :=
  match sel.currentTip.point, candidate.point with
  | .origin, .origin => .equal
  | .origin, _ => .preferCandidate
  | _, .origin => .preferCurrent
  | _, _ =>
    let primary := if era = .byron then sel.compareDensity candidate
      else sel.compareLength candidate
    match primary with
    | .equal =>
      -- PBFT has no tie-break: the incumbent stays
      if era = .byron then .equal
      else praosTiebreak P currentHeader candidateHeader era slotWindow
    | other => other

end ChainSelection

/-! ## The measure -/

def BlockHeader.isByron (header : BlockHeader) : Bool := header.protocolVersion.era = .byron

/-- Block number, era flag, slot of a Byron block, VRF output (lower is better) and certificate
counter of a later one. -/
abbrev Rank := Nat ×ₗ Nat ×ₗ Nat ×ₗ (List Nat)ᵒᵈ ×ₗ Nat

def BlockHeader.rank (header : BlockHeader) : Rank :=
  toLex (header.blockNumber,
    if header.isByron then toLex (1, toLex (header.slot, toLex (toDual [], 0)))
    else toLex (0, toLex (0, toLex
      (toDual (header.vrfResult.output.map toNat), header.operationalCert.sequenceNumber))))

/-- The order of byte strings is the order of the numbers they list. -/
theorem map_toNat_lt (a b : Bytes) : a.map toNat < b.map toNat ↔ a < b := by
  induction a generalizing b with
  | nil => cases b <;> simp
  | cons x a ih =>
    cases b with
    | nil => simp
    | cons y b =>
      simp only [List.map_cons, List.cons_lt_cons_iff, ih, UInt8.toNat_inj, UInt8.lt_iff_toNat_lt]

variable {a b candidate current : BlockHeader} {P : Crypto}

theorem rank_lt_of_blockNumber_lt (h : a.blockNumber < b.blockNumber) : a.rank < b.rank :=
  toLex_lt_toLex.2 (.inl h)

theorem blockNumber_le_of_rank_le (h : a.rank ≤ b.rank) : a.blockNumber ≤ b.blockNumber := by
  rcases toLex_le_toLex.1 h with hlt | ⟨heq, _⟩
  · exact hlt.le
  · exact heq.le

/-- Outside Byron a better tie-break improves the rank, whatever the era of the block it leads to. -/
theorem rank_lt_of_tiebreak (hn : a.blockNumber = b.blockNumber) (ha : a.isByron = false)
    (h : b.vrfResult.output < a.vrfResult.output ∨ b.vrfResult.output = a.vrfResult.output ∧
        a.operationalCert.sequenceNumber < b.operationalCert.sequenceNumber) :
    a.rank < b.rank := by
  refine toLex_lt_toLex.2 (.inr ⟨hn, ?_⟩)
  rw [ha, if_neg Bool.false_ne_true]
  split
  · exact toLex_lt_toLex.2 (.inl Nat.zero_lt_one)
  refine toLex_lt_toLex.2 (.inr ⟨rfl, toLex_lt_toLex.2 (.inr ⟨rfl, ?_⟩)⟩)
  rcases h with hvrf | ⟨hvrf, hseq⟩
  · exact toLex_lt_toLex.2 (.inl (toDual_lt_toDual.2
      ((map_toNat_lt _ _).2 hvrf)))
  · exact toLex_lt_toLex.2 (.inr ⟨by rw [hvrf], hseq⟩)

/-- What a lost tie-break says. -/
theorem praosTiebreak_eq_preferCandidate {era : Era} {slotWindow : Nat}
    (h : praosTiebreak P current candidate era slotWindow = .preferCandidate) :
    candidate.vrfResult.output < current.vrfResult.output ∨
      (P.blake2b224 current.issuerVkey = P.blake2b224 candidate.issuerVkey ∧
        current.slot = candidate.slot ∧
        current.operationalCert.sequenceNumber < candidate.operationalCert.sequenceNumber) := by
  rw [praosTiebreak] at h
  dsimp only at h
  split at h
  · next hsame =>
    split at h
    · next hseq => exact .inr ⟨hsame.1, hsame.2, hseq⟩
    · split at h <;> cases h
  split at h
  · cases h
  rw [vrfTiebreak] at h
  split at h
  · next hvrf => exact .inl hvrf
  · split at h <;> cases h

/-- The comparison of two blocks by their headers, as the selection pass makes it: the era and the
window are the selected tip's. -/
def preferHeader (P : Crypto) (current candidate : BlockHeader) : ChainPreference :=
  let era := current.protocolVersion.era
  let slotWindow : Nat := match era with
    | .conway | .dijkstra => 5
    | _ => u64Max
  let sel : ChainSelection :=
    { currentTip :=
        { point := .specific current.slot current.headerHash, blockNumber := current.blockNumber } }
  sel.preferChainWithHeaders P
    { point := .specific candidate.slot candidate.headerHash, blockNumber := candidate.blockNumber }
    current candidate era slotWindow

/-- What a preferred candidate is outside Byron: longer, or of one length with a better tie-break. -/
theorem preferHeader_eq_preferCandidate
    (hera : current.isByron = false) (h : preferHeader P current candidate = .preferCandidate) :
    current.blockNumber < candidate.blockNumber ∨ current.blockNumber = candidate.blockNumber ∧
        (candidate.vrfResult.output < current.vrfResult.output ∨
          (P.blake2b224 current.issuerVkey = P.blake2b224 candidate.issuerVkey ∧
            current.slot = candidate.slot ∧
            current.operationalCert.sequenceNumber <
              candidate.operationalCert.sequenceNumber)) := by
  have hne := of_decide_eq_false hera
  simp only [preferHeader, ChainSelection.preferChainWithHeaders, if_neg hne,
    ChainSelection.compareLength, gt_iff_lt] at h
  split_ifs at h with hlong hshort
  · exact .inl hlong
  exact .inr ⟨by omega, praosTiebreak_eq_preferCandidate h⟩

/-- Outside Byron a preferred candidate has a higher rank, when blocks of one pool at one slot carry
one VRF output. -/
theorem rank_lt_of_preferred (hera : current.isByron = false)
    (hvrf : P.blake2b224 current.issuerVkey = P.blake2b224 candidate.issuerVkey →
      current.slot = candidate.slot → current.vrfResult.output = candidate.vrfResult.output)
    (h : preferHeader P current candidate = .preferCandidate) : current.rank < candidate.rank := by
  rcases preferHeader_eq_preferCandidate hera h with hlong | ⟨hn, hlow | ⟨hpool, hslot, hseq⟩⟩
  · exact rank_lt_of_blockNumber_lt hlong
  · exact rank_lt_of_tiebreak hn hera (.inl hlow)
  · exact rank_lt_of_tiebreak hn hera (.inr ⟨(hvrf hpool hslot).symm, hseq⟩)

/-- A header of a major protocol version with empty keys, proofs and signatures: for examples. -/
def BlockHeader.plain (major : Nat) (headerHash prevHash : Hash32) (slot blockNumber : Nat) :
    BlockHeader where
  headerHash := headerHash
  prevHash := prevHash
  issuerVkey := []
  vrfVkey := []
  vrfResult := ⟨[], []⟩
  blockNumber := blockNumber
  slot := slot
  epochNonce := 0
  bodySize := 0
  bodyHash := 0
  operationalCert := ⟨[], 0, 0, []⟩
  protocolVersion := ⟨major, 0⟩
  kesSignature := []
  nonceVrfOutput := []
  nonceVrfProof := []
  rawHeaderBody := none

end Dugite
