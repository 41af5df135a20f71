import Dugite.Consensus.OverlaySchedule
import Dugite.Crypto.LeaderCheck
import Dugite.Crypto.Primitives
import Dugite.Lib.Checks
import Dugite.Primitives.Header

/-!
# Ouroboros Praos header validation

The engine `OuroborosPraos` and the checks of `validate_header_full`, in the order of the source.
A check that reads the engine and changes nothing is an `Except`; only the operational certificate
counter writes, so `checkOpcertCounter`, `runTailChecks` and `validateHeaderFull` also return the
engine they leave behind, on an error as well as on success.

`validateHeaderFull` is cut at its early returns: `structuralChecks` (steps 1 to 1bb), `overlayCheck`
(step 1c, which ends in a `Route`), `poolChecks` (steps 2 and 3) and `runTailChecks` (step 4).

The floating-point coefficient enters only through the stability window, so the engine holds that
number in its place.
-/

namespace Dugite

open Checks

inductive ConsensusError where
  | invalidBlock (reason : String)
  | futureBlock (current block : Nat)
  | invalidKesSignature
  | invalidOperationalCert
  | kesExpired (current certStart maxEvolutions : Nat)
  | kesPeriodBeforeCert (blockPeriod certStart : Nat)
  | emptyVrfKey
  | emptyIssuerVkey
  | checkpointMismatch (blockNo : Nat) (expected got : Hash32)
  | vrfVerification (reason : String)
  | opcertSequenceRegression (got expected : Nat)
  | vrfKeyMismatch
  | opcertCounterOverIncremented (got lastSeen : Nat)
  | obsoleteNode (chainPv nodeMaxPv : Nat)
  | unregisteredPool (poolId : Hash28)
  | notActiveOverlaySlot (slot : Nat)
  | wrongGenesisDelegate (genesisKey issuer : Hash28)
  | unknownGenesisKey (genesisKey : Hash28)
  | genesisVrfKeyMismatch (expected got : Hash32)
  | outsideForecast (at_ : Option Nat) (maxFor requested : Nat)
  | malformedHeaderField (field : String) (expectedLen actualLen : Nat)
  /-- No error of the source: the key lookup of the overlay schedule panics. -/
  | overlayPanic
  deriving DecidableEq

/-- What validation knows of a registered pool. -/
structure BlockIssuerInfo where
  vrfKeyhash : Hash32
  poolStake : Nat
  totalActiveStake : Nat
  deriving DecidableEq

inductive ValidationMode where
  | full
  | replay
  deriving DecidableEq

structure OuroborosPraos where
  activeSlotCoeffRational : Nat × Nat
  /-- `stability_window_slots` of the security parameter and the coefficient. -/
  stabilityWindow : Nat
  slotsPerKesPeriod : Nat
  maxKesEvolutions : Nat
  strictVerification : Bool
  snapshotsEstablished : Bool
  checkpoints : FinMap Nat Hash32
  maxMajorProtVer : Nat
  opcertCounters : FinMap Hash28 Nat
  opcertUpperBoundAdvisory : Bool

/-- Slots a header may run ahead of the wall clock. -/
def clockSkewSlots : Nat := 2

/-! ## Structural checks -/

/-- Empty fields pass: other checks are to reject them. -/
def checkField (strict : Bool) (field : String) (value : Bytes) (expected : Nat) :
    Except ConsensusError Unit :=
  rejectIf (strict && !value.isEmpty && value.length != expected)
    (.malformedHeaderField field expected value.length)

def checkHeaderFieldSizes (header : BlockHeader) (strict : Bool) : Except ConsensusError Unit := do
  checkField strict "issuer_vkey" header.issuerVkey 32
  checkField strict "vrf_vkey" header.vrfVkey 32
  checkField strict "vrf_result.output" header.vrfResult.output 64
  checkField strict "opcert.sigma" header.operationalCert.sigma 64
  checkField strict "opcert.hot_vkey" header.operationalCert.hotVkey 32
  checkField strict "kes_signature" header.kesSignature 448
  -- The nonce certificate exists in TPraos headers only.
  checkField (strict && header.isTpraos) "nonce_vrf_proof" header.nonceVrfProof 80
  checkField (strict && header.isTpraos) "nonce_vrf_output" header.nonceVrfOutput 64

/-- Whether `requested` lies in the forecast window of a ledger whose tip is at `at_`. -/
def forecastFor (at_ : Option Nat) (stabilityWindow requested : Nat) : Except ConsensusError Unit :=
  let succAt := match at_ with
    | some s => satAdd s 1
    | none => 0
  let maxFor := satAdd succAt stabilityWindow
  rejectIf (!decide (requested < maxFor)) (.outsideForecast at_ maxFor requested)

section
variable (c : OuroborosPraos)

def checkObsoleteNode : Option Nat → Except ConsensusError Unit
  | some pvMajor =>
    rejectIf (decide (c.maxMajorProtVer < pvMajor)) (.obsoleteNode pvMajor c.maxMajorProtVer)
  | none => .ok ()

variable (header : BlockHeader)

def checkForecast : Option Nat → Except ConsensusError Unit
  | some tip => forecastFor (some tip) c.stabilityWindow header.slot
  | none => .ok ()

/-- Not from the future, both keys present, field sizes. -/
def envelopeChecks (currentSlot : Nat) : Except ConsensusError Unit := do
  rejectIf (decide (satAdd currentSlot clockSkewSlots < header.slot))
    (.futureBlock currentSlot header.slot)
  rejectIf header.issuerVkey.isEmpty .emptyIssuerVkey
  rejectIf header.vrfVkey.isEmpty .emptyVrfKey
  checkHeaderFieldSizes header c.strictVerification

def structuralChecks (currentSlot : Nat)
    (ledgerPvMajor ledgerTipSlot : Option Nat) : Except ConsensusError Unit := do
  envelopeChecks c header currentSlot
  checkObsoleteNode c ledgerPvMajor
  checkForecast c header ledgerTipSlot

end

/-! ## Overlay and pool checks -/

variable (P : Crypto)

/-- How `validate_header_full` goes on after the overlay step. -/
inductive Route where
  /-- Accept at once: a silent slot without strict verification. -/
  | accept
  /-- The tail checks only: the slot belongs to a genesis delegate. -/
  | tail
  /-- The pool checks, then the tail checks. -/
  | praos
  deriving DecidableEq

/-- The delegate of the slot's genesis key must have issued the header and own its VRF key. -/
def checkGenesisDelegate (strict : Bool) (header : BlockHeader) (genesisKey : Hash28) :
    Option (Hash28 × Hash32) → Except ConsensusError Unit
  | none => rejectIf strict (.unknownGenesisKey genesisKey)
  | some (delegateKeyHash, delegateVrfHash) => do
    let issuerHash := P.blake2b224 header.issuerVkey
    rejectIf (strict && issuerHash != delegateKeyHash) (.wrongGenesisDelegate genesisKey issuerHash)
    let headerVrfHash := P.blake2b256 header.vrfVkey
    rejectIf (strict && header.vrfVkey.length == 32 && headerVrfHash != delegateVrfHash)
      (.genesisVrfKeyMismatch delegateVrfHash headerVrfHash)

variable (c : OuroborosPraos) (header : BlockHeader)

/-- The class of the header's slot, `none` where the overlay schedule does not apply. -/
def overlaySlot : Option OverlayContext → Option (Option OBftSlot)
  | some ctx =>
    if 0 < ctx.dNum ∧ 0 < ctx.dDen then
      lookupInOverlaySchedule ctx.firstSlotOfEpoch ctx.genesisKeys ctx.dNum ctx.dDen
        c.activeSlotCoeffRational.1 c.activeSlotCoeffRational.2 header.slot
    else some none
  | none => some none

/-- The delegate registered for a genesis key in the overlay context. -/
def genesisDelegate (overlayCtx : Option OverlayContext) (genesisKey : Hash28) :
    Option (Hash28 × Hash32) :=
  overlayCtx.bind fun ctx => ctx.genesisDelegates.lookup genesisKey

def overlayCheck (overlayCtx : Option OverlayContext) : Except ConsensusError Route :=
  match overlaySlot c header overlayCtx with
  | none => .error .overlayPanic
  | some none => .ok .praos
  | some (some .nonActiveSlot) =>
    if c.strictVerification then .error (.notActiveOverlaySlot header.slot) else .ok .accept
  | some (some (.activeSlot genesisKey)) => do
    checkGenesisDelegate P c.strictVerification header genesisKey
      (genesisDelegate overlayCtx genesisKey)
    .ok .tail

/-- The leader threshold for the pool's stake: the hashed leader value in Praos, the raw output in
TPraos. -/
def isLeader (info : BlockIssuerInfo) : Bool :=
  let (fNum, fDen) := c.activeSlotCoeffRational
  if header.isTpraos then
    LeaderCheck.checkLeaderValueTpraosRational header.vrfResult.output info.poolStake
      info.totalActiveStake fNum fDen
  else
    LeaderCheck.checkLeaderValueFullRational (P.vrfLeaderValue header.vrfResult.output)
      info.poolStake info.totalActiveStake fNum fDen

/-- The text of a failed leader check. The source prints the relative stake as a float; here it is
the fraction. -/
def leaderFailureText (header : BlockHeader) (info : BlockIssuerInfo) : String :=
  "VRF leader eligibility check failed: slot=" ++ toString header.slot ++ ", sigma=" ++
    toString info.poolStake ++ "/" ++ toString info.totalActiveStake ++ ", proto=" ++
    toString header.protocolVersion.major

def poolChecks : Option BlockIssuerInfo → Except ConsensusError Unit
  | none => rejectIf c.strictVerification (.unregisteredPool (P.blake2b224 header.issuerVkey))
  | some info => do
    rejectIf (c.strictVerification && header.vrfVkey.length == 32 &&
      P.blake2b256 header.vrfVkey != info.vrfKeyhash) .vrfKeyMismatch
    rejectIf (header.vrfResult.output.length == 64 && !isLeader P c header info &&
      c.strictVerification && c.snapshotsEstablished)
      (.invalidBlock (leaderFailureText header info))

/-! ## The operational certificate counter -/

/-- The size past which the counter map takes no new pool. -/
def maxOpcertEntries : Nat := 50000

def recordOpcertCounter (counters : FinMap Hash28 Nat) (poolId : Hash28) (n : Nat) :
    FinMap Hash28 Nat :=
  match counters.lookup poolId with
  | some v => if v < n then counters.insert poolId n else counters
  | none => if counters.size < maxOpcertEntries then counters.insert poolId n else counters

section
variable (c : OuroborosPraos)

def OuroborosPraos.record (poolId : Hash28) (n : Nat) : OuroborosPraos :=
  { c with opcertCounters := recordOpcertCounter c.opcertCounters poolId n }

/-- `currentIssueNo`: the tracked counter, or zero for a pool of the stake distribution. -/
def currentIssueNo (poolId : Hash28) (issuerInfo : Option BlockIssuerInfo) : Option Nat :=
  match c.opcertCounters.lookup poolId with
  | some stored => some stored
  | none => if issuerInfo.isSome then some 0 else none

/-- Check the counter of the header's certificate and record it. The upper bound is Praos only; in
advisory mode an over-increment is recorded before it is reported. -/
def checkOpcertCounter (header : BlockHeader)
    (issuerInfo : Option BlockIssuerInfo) : Except ConsensusError Unit × OuroborosPraos :=
  if header.issuerVkey.isEmpty then (.ok (), c)
  else
    let poolId := P.blake2b224 header.issuerVkey
    let n := header.operationalCert.sequenceNumber
    match currentIssueNo c poolId issuerInfo with
    | none => (.ok (), c.record poolId n)
    | some m =>
      if n < m then
        if c.strictVerification then (.error (.opcertSequenceRegression n m), c)
        else (.ok (), c.record poolId n)
      else if !header.isTpraos ∧ satAdd m 1 < n then
        if c.opcertUpperBoundAdvisory then
          (.error (.opcertCounterOverIncremented n m), c.record poolId n)
        else if c.strictVerification then (.error (.opcertCounterOverIncremented n m), c)
        else (.ok (), c.record poolId n)
      else (.ok (), c.record poolId n)

/-- Keep the counters of the given pools only. -/
def pruneOpcertCounters (activePoolIds : Finset Hash28) : OuroborosPraos :=
  { c with opcertCounters := c.opcertCounters.retain fun poolId _ => decide (poolId ∈ activePoolIds) }

end

/-! ## Checks after the counter -/

/-- The seed of the header's leader VRF: by the header's structure, not by its version. -/
def leaderSeed (header : BlockHeader) : Bytes :=
  if header.isTpraos then P.tpraosLeaderVrfInput header.epochNonce header.slot
  else P.vrfInput header.epochNonce header.slot

/-- Compare a verified VRF output with the one a header states; a header that states none passes. -/
def checkVrfOutput (strict : Bool) (stated : Bytes) (verified : Vector UInt8 64)
    (mismatch : String) : Except ConsensusError Unit :=
  rejectIf (strict && stated.length == 64 && stated != verified.toList) (.invalidBlock mismatch)

def verifyVrfProof (c : OuroborosPraos) (header : BlockHeader) : Except ConsensusError Unit :=
  match P.verifyVrfProof header.vrfVkey header.vrfResult.proof (leaderSeed P header) with
  | .ok vrfOutput =>
    checkVrfOutput c.strictVerification header.vrfResult.output vrfOutput "VRF output mismatch"
  | .error e => rejectIf c.strictVerification (.vrfVerification e.text)

def verifyNonceVrfProof (c : OuroborosPraos) (header : BlockHeader) : Except ConsensusError Unit :=
  if header.isTpraos then
    match P.verifyVrfProof header.vrfVkey header.nonceVrfProof
      (P.tpraosNonceVrfInput header.epochNonce header.slot) with
    | .ok vrfOutput =>
      checkVrfOutput c.strictVerification header.nonceVrfOutput vrfOutput
        "Nonce VRF output mismatch"
    | .error e => rejectIf c.strictVerification (.vrfVerification ("nonce VRF: " ++ e.text))
  else .ok ()

def validateKesPeriod (c : OuroborosPraos) (header : BlockHeader) : Except ConsensusError Unit := do
  rejectIf (c.slotsPerKesPeriod == 0)
    (.invalidBlock "slots_per_kes_period is 0 — divide-by-zero in KES period calculation")
  let blockKesPeriod := header.slot / c.slotsPerKesPeriod
  let certKesPeriod := header.operationalCert.kesPeriod
  rejectIf (decide (blockKesPeriod < certKesPeriod))
    (.kesPeriodBeforeCert blockKesPeriod certKesPeriod)
  rejectIf (decide (c.maxKesEvolutions ≤ blockKesPeriod - certKesPeriod))
    (.kesExpired blockKesPeriod certKesPeriod c.maxKesEvolutions)

/-- The cold key's signature on the certificate. -/
def verifyOpcertSignature (coldVkey : Bytes) (opcert : OperationalCert) : Bool :=
  P.ed25519Verify coldVkey
    (ocertSignableBytes opcert.hotVkey opcert.sequenceNumber opcert.kesPeriod) opcert.sigma

def validateOperationalCert (c : OuroborosPraos) (header : BlockHeader) :
    Except ConsensusError Unit := do
  let opcert := header.operationalCert
  rejectIf opcert.hotVkey.isEmpty .invalidOperationalCert
  rejectIf opcert.sigma.isEmpty .invalidOperationalCert
  rejectIf (header.issuerVkey.length == 32 && opcert.sigma.length == 64 &&
    !verifyOpcertSignature P header.issuerVkey opcert && c.strictVerification)
    .invalidOperationalCert

/-- The message of the KES signature: the wire bytes where the header has them. -/
def signedHeaderBody (header : BlockHeader) : Bytes :=
  header.rawHeaderBody.getD (encodeBlockHeaderBody header)

section
variable (c : OuroborosPraos) (header : BlockHeader)

/-- Evolutions of the hot key since the certificate's start. -/
def kesPeriodOffset : Nat :=
  satSub (header.slot / c.slotsPerKesPeriod) header.operationalCert.kesPeriod

def verifyKesSignature : Except ConsensusError Unit :=
  if header.kesSignature.isEmpty then .ok ()
  else if header.operationalCert.hotVkey.length ≠ 32 ∨ header.kesSignature.length ≠ 448 then
    rejectIf c.strictVerification .invalidKesSignature
  else do
    rejectIf (c.slotsPerKesPeriod == 0) .invalidKesSignature
    let offset := kesPeriodOffset c header
    rejectIf (decide (2 ^ 32 ≤ offset))
      (.invalidBlock ("KES period offset " ++ toString offset ++ " exceeds u32 range"))
    rejectIf (!P.kesVerifyBytes header.operationalCert.hotVkey offset header.kesSignature
      (signedHeaderBody header) && c.strictVerification) .invalidKesSignature

def cryptoChecks : Except ConsensusError Unit := do
  verifyVrfProof P c header
  verifyNonceVrfProof P c header
  validateOperationalCert P c header
  verifyKesSignature P c header

/-- The KES period always, the cryptography in full mode. -/
def postCounterChecks (mode : ValidationMode) : Except ConsensusError Unit := do
  validateKesPeriod c header
  if mode = .full then cryptoChecks P c header else .ok ()

/-! ## The two entry points -/

def runTailChecks (issuerInfo : Option BlockIssuerInfo) (mode : ValidationMode) :
    Except ConsensusError Unit × OuroborosPraos :=
  match checkOpcertCounter P c header issuerInfo with
  | (.error e, c') => (.error e, c')
  | (.ok (), c') => (postCounterChecks P c' header mode, c')

end

/-- The arguments of `validate_header_full` beside the engine. -/
structure HeaderInput where
  header : BlockHeader
  currentSlot : Nat
  issuerInfo : Option BlockIssuerInfo
  overlayCtx : Option OverlayContext
  mode : ValidationMode
  (ledgerPvMajor ledgerTipSlot : Option Nat)

def validateHeaderFull (c : OuroborosPraos) (i : HeaderInput) :
    Except ConsensusError Unit × OuroborosPraos :=
  match structuralChecks c i.header i.currentSlot i.ledgerPvMajor i.ledgerTipSlot with
  | .error e => (.error e, c)
  | .ok () =>
    match overlayCheck P c i.header i.overlayCtx with
    | .error e => (.error e, c)
    | .ok .accept => (.ok (), c)
    | .ok .tail => runTailChecks P c i.header i.issuerInfo i.mode
    | .ok .praos =>
      match poolChecks P c i.header i.issuerInfo with
      | .error e => (.error e, c)
      | .ok () => runTailChecks P c i.header i.issuerInfo i.mode

/-- The block number's checkpoint, if there is one, must be the header's hash. -/
def checkCheckpoint (c : OuroborosPraos) (header : BlockHeader) : Except ConsensusError Unit :=
  match c.checkpoints.lookup header.blockNumber with
  | some expected =>
    rejectIf (header.headerHash != expected)
      (.checkpointMismatch header.blockNumber expected header.headerHash)
  | none => .ok ()

/-- The entry point without pool context. -/
def validateHeader (c : OuroborosPraos) (header : BlockHeader) (currentSlot : Nat)
    (mode : ValidationMode) (ledgerPvMajor : Option Nat) : Except ConsensusError Unit := do
  checkCheckpoint c header
  envelopeChecks c header currentSlot
  checkObsoleteNode c ledgerPvMajor
  postCounterChecks P c header mode

end Dugite
