import Dugite.Consensus.OpcertCounter

/-!
# What an accepted header proves

`Justified` says what a header that enters the chain should have shown: its VRF proof, the right to
the slot, a certified hot key inside its window, a signature by that key, and agreement with the
checkpoint of its block number. Each of these is the business of one check, and each check has its
own lemma below that reads off what its acceptance in strict mode means.

Three of the checks pass on a header that leaves something out. An empty VRF output skips both the
leader threshold and the comparison with the proof's output, an empty KES signature skips its
verification, and the checkpoint is looked up by `validateHeader` only. `Complete` excludes the
three, and an accepted header is justified exactly when it is complete.
-/

namespace Dugite

open Checks List

section
variable {P : Crypto} {c : OuroborosPraos} {header : BlockHeader}
  {overlayCtx : Option OverlayContext} {i : HeaderInput}

/-! ## The specification -/

/-- The issuer has the slot: in an overlay slot it is the scheduled genesis delegate, elsewhere a
pool whose VRF output meets the threshold of its stake; and the VRF key is the registered one. -/
def Entitled (P : Crypto) (c : OuroborosPraos) (i : HeaderInput) : Prop :=
  match overlaySlot c i.header i.overlayCtx with
  | some (some (.activeSlot genesisKey)) =>
    genesisDelegate i.overlayCtx genesisKey =
      some (P.blake2b224 i.header.issuerVkey, P.blake2b256 i.header.vrfVkey)
  | some none =>
    ∃ info, i.issuerInfo = some info ∧ P.blake2b256 i.header.vrfVkey = info.vrfKeyhash ∧
      isLeader P c i.header info = true
  | _ => False

/-- The certificate's KES window contains the header's slot. -/
def InKesWindow (c : OuroborosPraos) (header : BlockHeader) : Prop :=
  0 < c.slotsPerKesPeriod ∧ header.operationalCert.kesPeriod ≤ header.slot / c.slotsPerKesPeriod ∧
    header.slot / c.slotsPerKesPeriod < header.operationalCert.kesPeriod + c.maxKesEvolutions

structure Justified (P : Crypto) (c : OuroborosPraos) (i : HeaderInput) : Prop where
  /-- The proof verifies for slot and nonce and yields the header's output. -/
  vrf : ∃ output, P.verifyVrfProof i.header.vrfVkey i.header.vrfResult.proof
    (leaderSeed P i.header) = .ok output ∧ i.header.vrfResult.output = output.toList
  entitled : Entitled P c i
  window : InKesWindow c i.header
  /-- The cold key certified the hot key. -/
  opcert : verifyOpcertSignature P i.header.issuerVkey i.header.operationalCert = true
  /-- The hot key signed the header body in the slot's period. -/
  kes : i.header.operationalCert.hotVkey.length = 32 ∧ i.header.kesSignature.length = 448 ∧
    P.kesVerifyBytes i.header.operationalCert.hotVkey (kesPeriodOffset c i.header)
      i.header.kesSignature (signedHeaderBody i.header) = true
  checkpoint : ∀ expected, c.checkpoints.lookup i.header.blockNumber = some expected →
    i.header.headerHash = expected

/-- The header states a VRF output and a KES signature, and it agrees with its checkpoint. -/
def Complete (c : OuroborosPraos) (header : BlockHeader) : Prop :=
  header.vrfResult.output ≠ [] ∧ header.kesSignature ≠ [] ∧ checkCheckpoint c header = .ok ()

/-! ## What each check means -/

theorem checkField_ok_iff {field : String} {value : Bytes} {expected : Nat} :
    checkField true field value expected = .ok () ↔ value = [] ∨ value.length = expected := by
  simp only [checkField, rejectIf_eq_ok, Bool.true_and, Bool.and_eq_false_imp, Bool.not_eq_true',
    isEmpty_eq_false_iff, bne_eq_false_iff_eq, or_iff_not_imp_left]

/-- Field sizes in strict mode, as far as later checks rely on them. -/
structure FieldSizes (header : BlockHeader) : Prop where
  issuerVkey : header.issuerVkey.length = 32
  vrfVkey : header.vrfVkey.length = 32
  output : header.vrfResult.output = [] ∨ header.vrfResult.output.length = 64
  sigma : header.operationalCert.sigma = [] ∨ header.operationalCert.sigma.length = 64

theorem fieldSizes_of_structuralChecks (hs : c.strictVerification = true) {currentSlot : Nat}
    {ledgerPvMajor ledgerTipSlot : Option Nat}
    (h : structuralChecks c header currentSlot ledgerPvMajor ledgerTipSlot = .ok ()) :
    FieldSizes header := by
  simp only [structuralChecks, envelopeChecks, checkHeaderFieldSizes, bind_unit_eq_ok,
    rejectIf_eq_ok, hs, checkField_ok_iff, isEmpty_eq_false_iff] at h
  obtain ⟨⟨-, hi, hv, hi', hv', ho, hsg, -⟩, -⟩ := h
  exact ⟨hi'.resolve_left hi, hv'.resolve_left hv, ho, hsg⟩

theorem validateKesPeriod_ok_iff : validateKesPeriod c header = .ok () ↔ InKesWindow c header := by
  simp only [validateKesPeriod, bind_unit_eq_ok, rejectIf_eq_ok, decide_eq_false_iff_not,
    beq_eq_false_iff_ne, InKesWindow]
  omega

theorem verifyKesSignature_ok_iff (hs : c.strictVerification = true)
    (hk : header.kesSignature ≠ []) :
    verifyKesSignature P c header = .ok () ↔
      (header.operationalCert.hotVkey.length = 32 ∧ header.kesSignature.length = 448) ∧
        0 < c.slotsPerKesPeriod ∧ kesPeriodOffset c header < 2 ^ 32 ∧
        P.kesVerifyBytes header.operationalCert.hotVkey (kesPeriodOffset c header)
          header.kesSignature (signedHeaderBody header) = true := by
  simp only [verifyKesSignature, List.isEmpty_iff, hk, if_false]
  split
  · next hsz => simp only [hs, rejectIf_eq_ok, Bool.true_eq_false, false_iff]; tauto
  · next hsz =>
    rw [not_or, not_not, not_not] at hsz
    simp [hs, hsz, Nat.pos_iff_ne_zero]

theorem checkCheckpoint_ok_iff : checkCheckpoint c header = .ok () ↔
      ∀ expected, c.checkpoints.lookup header.blockNumber = some expected →
        header.headerHash = expected := by
  unfold checkCheckpoint
  split
  · next expected h => simp [h]
  · next h => simp [h]

/-- The entry point without pool context looks the checkpoint up; that with the context does not. -/
theorem checkpoint_of_validateHeader {currentSlot : Nat} {mode : ValidationMode}
    {ledgerPvMajor : Option Nat}
    (h : validateHeader P c header currentSlot mode ledgerPvMajor = .ok ()) (expected : Hash32)
    (hexpected : c.checkpoints.lookup header.blockNumber = some expected) :
    header.headerHash = expected := by
  simp only [validateHeader, bind_unit_eq_ok] at h
  exact checkCheckpoint_ok_iff.1 h.1 expected hexpected

theorem overlaySlot_of_overlayCheck_praos (h : overlayCheck P c header overlayCtx = .ok .praos) :
    overlaySlot c header overlayCtx = some none := by
  unfold overlayCheck at h
  split at h
  · cases h
  · next hslot => exact hslot
  · split at h <;> cases h
  · simp at h

section
variable (hs : c.strictVerification = true)
include hs

theorem delegate_of_overlayCheck_tail (hv : header.vrfVkey.length = 32)
    (h : overlayCheck P c header overlayCtx = .ok .tail) :
    ∃ genesisKey, overlaySlot c header overlayCtx = some (some (.activeSlot genesisKey)) ∧
      genesisDelegate overlayCtx genesisKey =
        some (P.blake2b224 header.issuerVkey, P.blake2b256 header.vrfVkey) := by
  unfold overlayCheck at h
  split at h
  · cases h
  · cases h
  · split at h <;> cases h
  next genesisKey hslot =>
  rw [bind_unit_eq_ok, hs] at h
  refine ⟨genesisKey, hslot, ?_⟩
  cases hd : genesisDelegate overlayCtx genesisKey with
  | none => simp [checkGenesisDelegate, hd] at h
  | some d =>
    simp [checkGenesisDelegate, hd, hv] at h
    rw [h.1, h.2]

/-! ## Accepted headers -/

theorem entitled_of_reaches
    (he : c.snapshotsEstablished = true) (ho : i.header.vrfResult.output.length = 64)
    (hr : ReachesCounter P c i) : Entitled P c i := by
  have hz := fieldSizes_of_structuralChecks hs hr.1
  unfold Entitled
  obtain ⟨-, htail | ⟨hpraos, hpool⟩⟩ := hr
  · obtain ⟨genesisKey, hslot, hd⟩ := delegate_of_overlayCheck_tail hs hz.vrfVkey htail
    rw [hslot]
    exact hd
  · rw [overlaySlot_of_overlayCheck_praos hpraos]
    cases hinfo : i.issuerInfo with
    | none => simp [poolChecks, hs, hinfo] at hpool
    | some info =>
      simp [poolChecks, hs, he, hz.vrfVkey, ho, hinfo] at hpool
      exact ⟨info, rfl, hpool.1, hpool.2⟩

end

theorem Justified.complete (h : Justified P c i) : Complete c i.header := by
  refine ⟨fun hnil => ?_, fun hnil => ?_, checkCheckpoint_ok_iff.2 h.checkpoint⟩
  · obtain ⟨output, -, ho⟩ := h.vrf
    have hlen := congrArg length ho
    simp [hnil] at hlen
  · have hlen := h.kes.2.1
    simp [hnil] at hlen

/-- An accepted header is fully justified exactly when it is complete: strict verification,
established snapshots and full mode leave open only a VRF output or KES signature that is empty and a
checkpoint that is not looked up. -/
theorem accepted_header_justified_iff (P : Crypto) (c : OuroborosPraos) (i : HeaderInput)
    (hs : c.strictVerification = true) (he : c.snapshotsEstablished = true)
    (hm : i.mode = .full) (hok : (validateHeaderFull P c i).1 = .ok ()) :
    Justified P c i ↔ Complete c i.header := by
  refine ⟨Justified.complete, fun ⟨ho, hk, hcp⟩ => ?_⟩
  obtain ⟨hr, -, -, hpost⟩ := (validateHeaderFull_ok_iff hs).1 hok
  have hz := fieldSizes_of_structuralChecks hs hr.1
  have ho64 := hz.output.resolve_left ho
  simp only [postCounterChecks, hm, if_true, cryptoChecks, bind_unit_eq_ok] at hpost
  obtain ⟨hperiod, hvrf, -, hcert, hkes⟩ := hpost
  obtain ⟨output, hproof, hout⟩ : ∃ output, P.verifyVrfProof i.header.vrfVkey
      i.header.vrfResult.proof (leaderSeed P i.header) = .ok output ∧
      i.header.vrfResult.output = output.toList := by
    unfold verifyVrfProof at hvrf
    split at hvrf
    · next output h => exact ⟨output, h, by simpa [checkVrfOutput, hs, ho64] using hvrf⟩
    · simp [hs] at hvrf
  have hsig := (verifyKesSignature_ok_iff hs hk).1 hkes
  exact {
    vrf := ⟨output, hproof, hout⟩
    entitled := entitled_of_reaches hs he ho64 hr
    window := validateKesPeriod_ok_iff.1 hperiod
    opcert := by
      simp only [validateOperationalCert, bind_unit_eq_ok, rejectIf_eq_ok, hs,
        isEmpty_eq_false_iff] at hcert
      obtain ⟨-, hsigma, hv⟩ := hcert
      simpa [hz.issuerVkey, hz.sigma.resolve_left hsigma] using hv
    kes := ⟨hsig.1.1, hsig.1.2, hsig.2.2.2⟩
    checkpoint := checkCheckpoint_ok_iff.1 hcp }

end

/-! ## Headers that slip through -/

/-- No KES signature at all. -/
def unsignedHeader : BlockHeader := { sampleHeader with kesSignature := [] }

/-- No VRF output: the pool's stake is never looked at. -/
def outputlessHeader : BlockHeader :=
  { sampleHeader with vrfResult := { sampleHeader.vrfResult with output := [] } }

/-- The sample engine with a checkpoint at the sample header's block number. -/
def checkpointedEngine : OuroborosPraos :=
  { sampleEngine with checkpoints := (∅ : FinMap Nat Hash32).insert 5 8 }

/-- Three accepted headers that are not justified: one without a KES signature, one without a VRF
output, and one whose hash is not its checkpoint's. -/
theorem accepted_headers_not_justified :
    ((validateHeaderFull sampleCrypto sampleEngine (sampleInput unsignedHeader)).1 = .ok () ∧
      ¬ Justified sampleCrypto sampleEngine (sampleInput unsignedHeader)) ∧
    ((validateHeaderFull sampleCrypto sampleEngine (sampleInput outputlessHeader)).1 = .ok () ∧
      ¬ Justified sampleCrypto sampleEngine (sampleInput outputlessHeader)) ∧
    ((validateHeaderFull sampleCrypto checkpointedEngine (sampleInput sampleHeader)).1 = .ok () ∧
      ¬ Justified sampleCrypto checkpointedEngine (sampleInput sampleHeader)) :=
  ⟨⟨by decide +kernel, fun h => h.complete.2.1 rfl⟩, ⟨by decide +kernel, fun h => h.complete.1 rfl⟩,
    ⟨by decide +kernel, fun h => absurd h.complete.2.2 (by decide +kernel)⟩⟩

/-- The sample header is accepted and fully justified. -/
theorem sample_header_justified :
    (validateHeaderFull sampleCrypto sampleEngine (sampleInput sampleHeader)).1 = .ok () ∧
      Justified sampleCrypto sampleEngine (sampleInput sampleHeader) := by
  have hok : (validateHeaderFull sampleCrypto sampleEngine (sampleInput sampleHeader)).1 = .ok () := by
    decide +kernel
  refine ⟨hok, (accepted_header_justified_iff _ _ _ rfl rfl rfl hok).2 ⟨?_, ?_, ?_⟩⟩
  · exact fun h => cons_ne_nil _ _ h
  · exact fun h => cons_ne_nil _ _ h
  · decide +kernel

end Dugite
