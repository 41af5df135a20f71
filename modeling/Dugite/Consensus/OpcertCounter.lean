import Dugite.Consensus.Praos

/-!
# What a header does to the operational certificate counters

`validateHeaderFull` writes to the engine in one place, the counter map, and reaches that place only
when every check before it accepts (`ReachesCounter`). What the counter step can do in strict mode is
said once, in `checkOpcertCounter_cases`: reject a counter that is too small, reject one that runs
ahead (in advisory mode after recording it), or record it and go on. The cryptographic checks come
after the record, so a header they reject has already moved the counter.

`KeepsCounters` is the exact condition on engine and input under which a rejected header leaves the
counters alone, and `feed` follows the engine over a sequence of headers.
-/

namespace Dugite

open Checks List Nat

section
variable {P : Crypto} {c : OuroborosPraos} {header : BlockHeader} (counters : FinMap Hash28 Nat)

/-! ## Recording a counter -/

/-- Recording `n` changes nothing: the pool is tracked at `n` or more, or it is untracked and the
map is full. -/
def RecordIsNoop (counters : FinMap Hash28 Nat) (poolId : Hash28) (n : Nat) : Prop :=
  (∃ v, counters.lookup poolId = some v ∧ n ≤ v) ∨
    (counters.lookup poolId = none ∧ maxOpcertEntries ≤ counters.size)

/-- What is tracked for a pool after a record. -/
theorem lookup_recordOpcertCounter (poolId p : Hash28) (n : Nat) :
    (recordOpcertCounter counters poolId n).lookup p = if p = poolId then
        match counters.lookup poolId with
        | some v => some (max v n)
        | none => if counters.size < maxOpcertEntries then some n else none
      else counters.lookup p := by
  unfold recordOpcertCounter
  by_cases hp : p = poolId
  · subst hp
    cases hl : counters.lookup p with
    | none => by_cases hsz : counters.size < maxOpcertEntries <;> simp [hsz, hl]
    | some v =>
      by_cases hv : v < n
      · simp [hv, max_eq_right (le_of_lt hv)]
      · simp [hv, hl, max_eq_left (Nat.le_of_not_lt hv)]
  · cases hl : counters.lookup poolId with
    | none => by_cases hsz : counters.size < maxOpcertEntries <;>
        simp [hsz, hp]
    | some v => by_cases hv : v < n <;> simp [hv, hp]

theorem recordOpcertCounter_eq_self_iff (poolId : Hash28) (n : Nat) :
    recordOpcertCounter counters poolId n = counters ↔ RecordIsNoop counters poolId n := by
  constructor
  · intro h
    have hl := lookup_recordOpcertCounter counters poolId poolId n
    rw [h, if_pos rfl] at hl
    cases hc : counters.lookup poolId with
    | some v =>
      rw [hc] at hl
      have hv : v = max v n := by simpa using hl
      exact .inl ⟨v, hc, by omega⟩
    | none =>
      rw [hc] at hl
      refine .inr ⟨hc, Nat.le_of_not_lt fun hsz => ?_⟩
      simp [hsz] at hl
  · rintro (⟨v, hv, hn⟩ | ⟨hnone, hsz⟩)
    · simp [recordOpcertCounter, hv, not_lt.2 hn]
    · simp [recordOpcertCounter, hnone, not_lt.2 hsz]

/-! ## The counter step -/

section
variable (P : Crypto) (c : OuroborosPraos) (header : BlockHeader)

/-- The header's counter is below the issuer's current one. -/
def CounterTooSmall (issuerInfo : Option BlockIssuerInfo) : Prop :=
  ∃ m, currentIssueNo c (P.blake2b224 header.issuerVkey) issuerInfo = some m ∧
    header.operationalCert.sequenceNumber < m

/-- The header's counter runs ahead of the issuer's current one by more than one (Praos only). -/
def CounterOverIncremented (issuerInfo : Option BlockIssuerInfo) : Prop :=
  ∃ m, currentIssueNo c (P.blake2b224 header.issuerVkey) issuerInfo = some m ∧
    m ≤ header.operationalCert.sequenceNumber ∧ header.isTpraos = false ∧
    satAdd m 1 < header.operationalCert.sequenceNumber

/-- The engine after the header's counter is recorded. -/
def recorded : OuroborosPraos :=
  c.record (P.blake2b224 header.issuerVkey) header.operationalCert.sequenceNumber

end

/-- What the counter step does in strict mode: there are three outcomes. -/
theorem checkOpcertCounter_cases (issuerInfo : Option BlockIssuerInfo)
    (hs : c.strictVerification = true) (hv : header.issuerVkey ≠ []) :
    (CounterTooSmall P c header issuerInfo ∧
      ∃ e, checkOpcertCounter P c header issuerInfo = (.error e, c)) ∨
    (¬ CounterTooSmall P c header issuerInfo ∧ CounterOverIncremented P c header issuerInfo ∧
      ∃ e, checkOpcertCounter P c header issuerInfo =
        (.error e, if c.opcertUpperBoundAdvisory then recorded P c header else c)) ∨
    (¬ CounterTooSmall P c header issuerInfo ∧ ¬ CounterOverIncremented P c header issuerInfo ∧
      checkOpcertCounter P c header issuerInfo = (.ok (), recorded P c header)) := by
  have hv' : header.issuerVkey.isEmpty = false := by simpa using hv
  unfold checkOpcertCounter CounterTooSmall CounterOverIncremented recorded
  simp only [hv', Bool.false_eq_true, if_false, hs, if_true]
  cases hm : currentIssueNo c (P.blake2b224 header.issuerVkey) issuerInfo with
  | none => simp
  | some m =>
  by_cases hlt : header.operationalCert.sequenceNumber < m
  · simp [hlt]
  by_cases hover : !header.isTpraos ∧ satAdd m 1 < header.operationalCert.sequenceNumber
  · refine .inr (.inl ⟨by simp [hlt], ⟨m, rfl, by omega, by simpa using hover.1, hover.2⟩, ?_⟩)
    simp only [hlt, if_false, hover, and_self, if_true]
    by_cases ha : c.opcertUpperBoundAdvisory <;> simp [ha]
  · refine .inr (.inr ⟨by simp [hlt], ?_, by simp only [hlt, if_false, hover]⟩)
    rintro ⟨m', hm', -, ht, hgt⟩
    cases hm'
    exact hover ⟨by simp [ht], hgt⟩

/-- The later checks read only the engine's parameters, which a record leaves alone. -/
theorem postCounterChecks_recorded (mode : ValidationMode) :
    postCounterChecks P (recorded P c header) header mode = postCounterChecks P c header mode :=
  rfl

/-! ## Reaching the counter step -/

/-- Every check before the counter step accepts. -/
def ReachesCounter (P : Crypto) (c : OuroborosPraos) (i : HeaderInput) : Prop :=
  structuralChecks c i.header i.currentSlot i.ledgerPvMajor i.ledgerTipSlot = .ok () ∧
    (overlayCheck P c i.header i.overlayCtx = .ok .tail ∨
      (overlayCheck P c i.header i.overlayCtx = .ok .praos ∧
        poolChecks P c i.header i.issuerInfo = .ok ()))

theorem issuerVkey_ne_nil_of_structuralChecks {currentSlot : Nat}
    {ledgerPvMajor ledgerTipSlot : Option Nat}
    (h : structuralChecks c header currentSlot ledgerPvMajor ledgerTipSlot = .ok ()) :
    header.issuerVkey ≠ [] := by
  simp only [structuralChecks, envelopeChecks, bind_unit_eq_ok, rejectIf_eq_ok] at h
  simpa using h.1.2.1

variable {i : HeaderInput}

theorem validateHeaderFull_of_reaches (h : ReachesCounter P c i) :
    validateHeaderFull P c i = runTailChecks P c i.header i.issuerInfo i.mode := by
  obtain ⟨h1, h2 | ⟨h2, h3⟩⟩ := h
  · simp only [validateHeaderFull, h1, h2]
  · simp only [validateHeaderFull, h1, h2, h3]

/-- A header that does not reach the counter step leaves the engine as it is. -/
theorem validateHeaderFull_of_not_reaches (h : ¬ ReachesCounter P c i) :
    (validateHeaderFull P c i).2 = c := by
  unfold validateHeaderFull
  split
  · rfl
  next h1 =>
  split
  · rfl
  · rfl
  · next h2 => exact absurd ⟨h1, .inl h2⟩ h
  · next h2 =>
    split
    · rfl
    · next h3 => exact absurd ⟨h1, .inr ⟨h2, h3⟩⟩ h

/-- A header is accepted in strict mode exactly when it reaches the counter step, its counter is
within bounds and the later checks accept; the engine then has the counter recorded. -/
theorem validateHeaderFull_ok_iff (hs : c.strictVerification = true) :
    (validateHeaderFull P c i).1 = .ok () ↔
      ReachesCounter P c i ∧ ¬ CounterTooSmall P c i.header i.issuerInfo ∧
        ¬ CounterOverIncremented P c i.header i.issuerInfo ∧
        postCounterChecks P c i.header i.mode = .ok () := by
  by_cases hr : ReachesCounter P c i
  · rw [validateHeaderFull_of_reaches hr, runTailChecks]
    rcases checkOpcertCounter_cases (P := P) i.issuerInfo hs
      (issuerVkey_ne_nil_of_structuralChecks hr.1) with ⟨hsm, e, h⟩ | ⟨_, hov, e, h⟩ | ⟨hns, hno, h⟩
    · simp [h, hsm]
    · simp [h, hov]
    · simp [h, hr, hns, hno, postCounterChecks_recorded]
  · refine ⟨fun h => ?_, fun h => absurd h.1 hr⟩
    unfold validateHeaderFull at h
    split at h
    · cases h
    next h1 =>
    split at h
    · cases h
    · next h2 =>
      unfold overlayCheck at h2
      split at h2 <;> simp [hs] at h2
    · next h2 => exact absurd ⟨h1, .inl h2⟩ hr
    · next h2 =>
      split at h
      · cases h
      · next h3 => exact absurd ⟨h1, .inr ⟨h2, h3⟩⟩ hr

theorem validateHeaderFull_ok_engine (hs : c.strictVerification = true)
    (h : (validateHeaderFull P c i).1 = .ok ()) :
    (validateHeaderFull P c i).2 = recorded P c i.header := by
  obtain ⟨hr, hns, hno, -⟩ := (validateHeaderFull_ok_iff hs).1 h
  rw [validateHeaderFull_of_reaches hr, runTailChecks]
  rcases checkOpcertCounter_cases (P := P) i.issuerInfo hs
    (issuerVkey_ne_nil_of_structuralChecks hr.1) with ⟨hsm, -⟩ | ⟨_, hov, -⟩ | ⟨-, -, h⟩
  · exact absurd hsm hns
  · exact absurd hov hno
  · simp only [h]

/-! ## Rejected headers -/

/-- The condition under which a rejection leaves the counters alone: the header is turned away
before the counter is recorded, or recording it changes nothing, or nothing after the record turns
it away. -/
def KeepsCounters (P : Crypto) (c : OuroborosPraos) (i : HeaderInput) : Prop :=
  ¬ ReachesCounter P c i ∨ CounterTooSmall P c i.header i.issuerInfo ∨
    RecordIsNoop c.opcertCounters (P.blake2b224 i.header.issuerVkey)
      i.header.operationalCert.sequenceNumber ∨
    (CounterOverIncremented P c i.header i.issuerInfo ∧ c.opcertUpperBoundAdvisory = false) ∨
    (¬ CounterOverIncremented P c i.header i.issuerInfo ∧
      postCounterChecks P c i.header i.mode = .ok ())

/-- The engine after a sequence of headers. -/
def feed (P : Crypto) : OuroborosPraos → List HeaderInput → OuroborosPraos
  | c, [] => c
  | c, i :: is => feed P (validateHeaderFull P c i).2 is

/-- Every header of the sequence is rejected, and each meets `KeepsCounters` at the engine it
finds. -/
def RejectedRun (P : Crypto) : OuroborosPraos → List HeaderInput → Prop
  | _, [] => True
  | c, i :: is => (∃ e, (validateHeaderFull P c i).1 = .error e) ∧ KeepsCounters P c i ∧
      RejectedRun P (validateHeaderFull P c i).2 is

/-- A rejected header that meets the condition leaves the whole engine as it is. -/
theorem validateHeaderFull_rejected_eq {e : ConsensusError}
    (hs : c.strictVerification = true) (hk : KeepsCounters P c i)
    (he : (validateHeaderFull P c i).1 = .error e) : (validateHeaderFull P c i).2 = c := by
  by_cases hr : ReachesCounter P c i
  swap
  · exact validateHeaderFull_of_not_reaches hr
  have hrec : RecordIsNoop c.opcertCounters (P.blake2b224 i.header.issuerVkey)
      i.header.operationalCert.sequenceNumber → recorded P c i.header = c := fun hn => by
    rw [recorded, OuroborosPraos.record, (recordOpcertCounter_eq_self_iff _ _ _).2 hn]
  rw [validateHeaderFull_of_reaches hr, runTailChecks] at he ⊢
  rcases checkOpcertCounter_cases (P := P) i.issuerInfo hs
    (issuerVkey_ne_nil_of_structuralChecks hr.1) with ⟨_, e', h⟩ | ⟨hns, hover, e', h⟩ | ⟨hns, hno, h⟩
  · simp only [h]
  · simp only [h]
    rcases hk with hk | hk | hk | ⟨-, hk⟩ | ⟨hk, -⟩
    · exact absurd hr hk
    · exact absurd hk hns
    · simp [hrec hk]
    · simp [hk]
    · exact absurd hover hk
  · simp only [h, postCounterChecks_recorded] at he ⊢
    rcases hk with hk | hk | hk | ⟨hk, -⟩ | ⟨-, hk⟩
    · exact absurd hr hk
    · exact absurd hk hns
    · exact hrec hk
    · exact absurd hk hno
    · rw [hk] at he; cases he

/-- A header that is rejected after its counter was recorded has moved the counters, if the record
is not the one that was there. -/
theorem validateHeaderFull_rejected_moves (hs : c.strictVerification = true)
    (hk : ¬ KeepsCounters P c i) :
    ∃ e, (validateHeaderFull P c i).1 = .error e ∧
      (validateHeaderFull P c i).2.opcertCounters ≠ c.opcertCounters := by
  simp only [KeepsCounters, not_or, not_not, not_and, Bool.not_eq_false] at hk
  obtain ⟨hr, hns, hnoop, hadv, hpost⟩ := hk
  have hmove : (recorded P c i.header).opcertCounters ≠ c.opcertCounters := fun heq =>
    hnoop ((recordOpcertCounter_eq_self_iff _ _ _).1 heq)
  rw [validateHeaderFull_of_reaches hr, runTailChecks]
  rcases checkOpcertCounter_cases (P := P) i.issuerInfo hs
    (issuerVkey_ne_nil_of_structuralChecks hr.1) with ⟨hsm, -⟩ | ⟨-, hover, e', h⟩ | ⟨-, hno, h⟩
  · exact absurd hsm hns
  · refine ⟨e', by simp only [h], ?_⟩
    simpa only [h, hadv hover, if_true] using hmove
  · cases he : postCounterChecks P c i.header i.mode with
    | ok => exact absurd he (hpost hno)
    | error e =>
      exact ⟨e, by simp only [h, postCounterChecks_recorded, he], by simpa only [h] using hmove⟩

theorem feed_rejectedRun (hs : c.strictVerification = true) :
    ∀ {is : List HeaderInput}, RejectedRun P c is → feed P c is = c
  | [], _ => rfl
  | i :: is, ⟨⟨_, he⟩, hk, hrest⟩ => by
    have hc := validateHeaderFull_rejected_eq hs hk he
    rw [hc] at hrest
    rw [feed, hc]
    exact feed_rejectedRun hs hrest

/-- A rejected header changes nothing exactly when `KeepsCounters` holds. In strict mode a
rejection of `i` leaves the counters alone if and only if the condition holds of the engine and `i`;
and a run of rejected headers that all meet it changes the verdict on no later header. -/
theorem rejected_header_keeps_counters_iff (P : Crypto) (c : OuroborosPraos)
    (hs : c.strictVerification = true) :
    (∀ i, (∀ e, (validateHeaderFull P c i).1 = .error e →
        (validateHeaderFull P c i).2.opcertCounters = c.opcertCounters) ↔ KeepsCounters P c i) ∧
    ∀ is, RejectedRun P c is → ∀ j,
      (validateHeaderFull P (feed P c is) j).1 = (validateHeaderFull P c j).1 := by
  refine ⟨fun i => ⟨fun h => ?_, fun hk e he => ?_⟩, fun is hrun j => ?_⟩
  · by_contra hk
    obtain ⟨e, he, hne⟩ := validateHeaderFull_rejected_moves hs hk
    exact hne (h e he)
  · rw [validateHeaderFull_rejected_eq hs hk he]
  · rw [feed_rejectedRun hs hrun]

end

/-! ## A forged header

The primitives of the sample accept one signature of each kind, the one its owner would make; the
forger knows the public keys of the header only. -/

/-- Primitives that accept the all-ones proof and signatures. -/
def sampleCrypto : Crypto where
  blake2b224 bs := BitVec.ofNat 224 (ofBeBytes bs)
  blake2b256 bs := BitVec.ofNat 256 (ofBeBytes bs)
  vrfVerify _ proof _ :=
    if proof = replicate 80 1 then .ok (Vector.replicate 64 0) else .error .verificationFailed
  ed25519VerifyStrict _ _ signature := signature == replicate 64 1
  sum6KesVerify _ _ signature _ := signature == replicate 448 1

def sampleEngine : OuroborosPraos where
  activeSlotCoeffRational := (1, 1)
  stabilityWindow := 129600
  slotsPerKesPeriod := 129600
  maxKesEvolutions := 62
  strictVerification := true
  snapshotsEstablished := true
  checkpoints := ∅
  maxMajorProtVer := 10
  opcertCounters := ∅
  opcertUpperBoundAdvisory := false

def sampleHeader : BlockHeader where
  headerHash := 7
  prevHash := 0
  issuerVkey := replicate 32 2
  vrfVkey := replicate 32 3
  vrfResult := ⟨replicate 64 0, replicate 80 1⟩
  blockNumber := 5
  slot := 100
  epochNonce := 0
  bodySize := 0
  bodyHash := 0
  operationalCert := ⟨replicate 32 4, 0, 0, replicate 64 1⟩
  protocolVersion := ⟨9, 0⟩
  kesSignature := replicate 448 1
  nonceVrfOutput := []
  nonceVrfProof := []
  rawHeaderBody := some []

/-- Validation of a header of the sample pool, which owns the whole stake. -/
def sampleInput (header : BlockHeader) : HeaderInput where
  header := header
  currentSlot := 100
  issuerInfo := some ⟨sampleCrypto.blake2b256 (replicate 32 3), 1, 1⟩
  overlayCtx := none
  mode := .full
  ledgerPvMajor := none
  ledgerTipSlot := none

/-- The pool's keys, the next counter and a signature of zeros. -/
def forgedHeader : BlockHeader :=
  { sampleHeader with
    operationalCert := { sampleHeader.operationalCert with sequenceNumber := 1 }
    kesSignature := replicate 448 0 }

/-- The forged header is rejected for its KES signature and still moves the counter, so the pool's
own header, accepted before, is now rejected as a regression. -/
theorem forged_header_moves_counter :
    sampleEngine.strictVerification = true ∧
    (validateHeaderFull sampleCrypto sampleEngine (sampleInput forgedHeader)).1 =
      .error .invalidKesSignature ∧
    (validateHeaderFull sampleCrypto sampleEngine (sampleInput forgedHeader)).2.opcertCounters ≠
      sampleEngine.opcertCounters ∧
    (validateHeaderFull sampleCrypto sampleEngine (sampleInput sampleHeader)).1 = .ok () ∧
    (validateHeaderFull sampleCrypto
      (validateHeaderFull sampleCrypto sampleEngine (sampleInput forgedHeader)).2
      (sampleInput sampleHeader)).1 = .error (.opcertSequenceRegression 0 1) := by
  decide +kernel

/-- The forged header again, at a wall clock from which its slot lies in the future. -/
def earlyInput : HeaderInput := { sampleInput forgedHeader with currentSlot := 0 }

theorem keepsCounters_earlyInput : KeepsCounters sampleCrypto sampleEngine earlyInput :=
  .inl fun h => absurd h.1 (by decide +kernel)

/-- Rejected before the counter step, the forged header does no harm. -/
theorem rejected_early_header_keeps_counters :
    (validateHeaderFull sampleCrypto sampleEngine earlyInput).2.opcertCounters =
      sampleEngine.opcertCounters ∧
    (validateHeaderFull sampleCrypto (feed sampleCrypto sampleEngine [earlyInput])
      (sampleInput sampleHeader)).1 =
      (validateHeaderFull sampleCrypto sampleEngine (sampleInput sampleHeader)).1 := by
  have hrej : (validateHeaderFull sampleCrypto sampleEngine earlyInput).1 =
      .error (.futureBlock 0 100) := by decide +kernel
  have h := rejected_header_keeps_counters_iff sampleCrypto sampleEngine rfl
  exact ⟨(h.1 earlyInput).2 keepsCounters_earlyInput _ hrej,
    h.2 [earlyInput] ⟨⟨_, hrej⟩, keepsCounters_earlyInput, trivial⟩ _⟩

end Dugite
