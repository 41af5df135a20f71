import Dugite.Consensus.Justified

/-!
# Counter verdicts and the history of the chain

The counter map is a summary of the headers accepted so far. Along a chain of accepted headers and
epoch-boundary prunings (`runChain`) a pool should be tracked at the highest counter it has used,
`highestUsed`, and the verdict on its next header should be `expectedVerdict` of that number.

The summary loses a pool in two places: a pruning that does not list it, and a full map that does
not admit it. `EntryKept` says that neither happens to one pool along a run. The invariant under it
is that the tracked value, zero for an untracked pool, is the highest counter used; one step keeps it
(`tracked_step`), so a run does (`tracked_run`).
-/

namespace Dugite

open Checks List Option Finmap Nat

/-- What happens to the engine along a chain. -/
inductive ChainEvent where
  | header (i : HeaderInput)
  /-- An epoch boundary, with the pools registered at that moment. -/
  | prune (activePoolIds : Finset Hash28)

section
variable {P : Crypto} {poolId : Hash28}

/-- One event; a header must be accepted. -/
def chainStep (P : Crypto) (c : OuroborosPraos) : ChainEvent → Option OuroborosPraos
  | .header i =>
    match validateHeaderFull P c i with
    | (.ok (), c') => some c'
    | (.error _, _) => none
  | .prune activePoolIds => some (pruneOpcertCounters c activePoolIds)

def runChain (P : Crypto) : OuroborosPraos → List ChainEvent → Option OuroborosPraos
  | c, [] => some c
  | c, ev :: evs => (chainStep P c ev).bind fun c' => runChain P c' evs

/-- The counters a pool used, in chain order. -/
def usedCounters (P : Crypto) (poolId : Hash28) : List ChainEvent → List Nat
  | [] => []
  | .header i :: evs =>
    if P.blake2b224 i.header.issuerVkey = poolId then
      i.header.operationalCert.sequenceNumber :: usedCounters P poolId evs
    else usedCounters P poolId evs
  | .prune _ :: evs => usedCounters P poolId evs

/-- The highest counter a pool used, zero if it used none. -/
def highestUsed (P : Crypto) (poolId : Hash28) (evs : List ChainEvent) : Nat :=
  (usedCounters P poolId evs).foldl max 0

/-- The strict verdict on a header when its issuer stands at `m`. -/
def expectedVerdict (header : BlockHeader) (m : Nat) : Except ConsensusError Unit :=
  let n := header.operationalCert.sequenceNumber
  if n < m then .error (.opcertSequenceRegression n m)
  else if !header.isTpraos ∧ satAdd m 1 < n then .error (.opcertCounterOverIncremented n m)
  else .ok ()

/-- The tracked counter of a pool, zero if it is not tracked. -/
def tracked (c : OuroborosPraos) (poolId : Hash28) : Nat := (c.opcertCounters.lookup poolId).getD 0

/-- The map keeps a pool's entry at one event: a header of the pool finds it tracked or finds room,
and a pruning that finds it tracked lists it. -/
def KeepsEntry (P : Crypto) (poolId : Hash28) (c : OuroborosPraos) : ChainEvent → Prop
  | .header i => P.blake2b224 i.header.issuerVkey = poolId →
      poolId ∈ c.opcertCounters ∨ c.opcertCounters.size < maxOpcertEntries
  | .prune activePoolIds => poolId ∈ c.opcertCounters → poolId ∈ activePoolIds

/-- The map keeps a pool's entry at every event of a run. -/
def EntryKept (P : Crypto) (poolId : Hash28) : OuroborosPraos → List ChainEvent → Prop
  | _, [] => True
  | c, ev :: evs => KeepsEntry P poolId c ev ∧
      ∀ c', chainStep P c ev = some c' → EntryKept P poolId c' evs

/-! ## One step -/

variable {c c' : OuroborosPraos}

section
variable (hs : c.strictVerification = true) {ev : ChainEvent}
include hs

theorem chainStep_header {i : HeaderInput} (h : chainStep P c (.header i) = some c') :
    c' = recorded P c i.header := by
  have hok : (validateHeaderFull P c i).1 = .ok () ∧ (validateHeaderFull P c i).2 = c' := by
    simp only [chainStep] at h
    split at h
    · next heq => rw [heq]; exact ⟨rfl, some.inj h⟩
    · cases h
  rw [← hok.2, validateHeaderFull_ok_engine hs hok.1]

theorem chainStep_strict (h : chainStep P c ev = some c') : c'.strictVerification = true := by
  cases ev with
  | header i => rw [chainStep_header hs h]; exact hs
  | prune activePoolIds => cases h; exact hs

/-- The step lemma: where the entry is kept, a header of the pool raises the tracked value to its
counter and every other event leaves it. -/
theorem tracked_step (hk : KeepsEntry P poolId c ev) (h : chainStep P c ev = some c') :
    tracked c' poolId = (usedCounters P poolId [ev]).foldl max (tracked c poolId) := by
  cases ev with
  | header i =>
    rw [chainStep_header hs h]
    simp only [tracked, recorded, OuroborosPraos.record, lookup_recordOpcertCounter, usedCounters]
    by_cases hp : P.blake2b224 i.header.issuerVkey = poolId
    · subst hp
      simp only [if_true, foldl_cons, foldl_nil]
      cases hl : c.opcertCounters.lookup (P.blake2b224 i.header.issuerVkey) with
      | some v => rfl
      | none =>
        have hroom := (hk rfl).resolve_left (lookup_eq_none.1 hl)
        simp [hroom]
    · simp [hp, Ne.symm hp]
  | prune activePoolIds =>
    cases h
    simp only [tracked, pruneOpcertCounters, FinMap.lookup_retain, usedCounters, foldl_nil]
    cases hl : c.opcertCounters.lookup poolId with
    | none => rfl
    | some v =>
      have hmem := hk (mem_iff.2 ⟨v, hl⟩)
      simp [hmem, Option.filter]

end

/-! ## Runs -/

theorem usedCounters_cons (ev : ChainEvent) (evs : List ChainEvent) :
    usedCounters P poolId (ev :: evs) =
      usedCounters P poolId [ev] ++ usedCounters P poolId evs := by
  cases ev with
  | header i =>
    by_cases hp : P.blake2b224 i.header.issuerVkey = poolId <;> simp [usedCounters, hp]
  | prune activePoolIds => rfl

/-- The run lemma: the tracked value follows the counters the pool uses. -/
theorem tracked_run : ∀ {evs : List ChainEvent} {c c' : OuroborosPraos},
    c.strictVerification = true → EntryKept P poolId c evs → runChain P c evs = some c' →
      tracked c' poolId = (usedCounters P poolId evs).foldl max (tracked c poolId)
  | [], c, c', _, _, h => by
    cases h
    rfl
  | ev :: evs, c, c', hs, ⟨hk, hrest⟩, h => by
    obtain ⟨c₁, h₁, h₂⟩ := bind_eq_some_iff.1 h
    rw [usedCounters_cons, foldl_append, ← tracked_step hs hk h₁]
    exact tracked_run (chainStep_strict hs h₁) (hrest c₁ h₁) h₂

theorem runChain_strict : ∀ {evs : List ChainEvent} {c c' : OuroborosPraos},
    c.strictVerification = true → runChain P c evs = some c' → c'.strictVerification = true
  | [], _, _, hs, h => by
    cases h
    exact hs
  | ev :: evs, c, c', hs, h => by
    obtain ⟨c₁, h₁, h₂⟩ := bind_eq_some_iff.1 h
    exact runChain_strict (chainStep_strict hs h₁) h₂

/-- The verdict on a header of a pool in the stake distribution is decided by its tracked value. -/
theorem checkOpcertCounter_verdict {header : BlockHeader}
    (hs : c.strictVerification = true) (hv : header.issuerVkey ≠ []) (info : BlockIssuerInfo) :
    (checkOpcertCounter P c header (some info)).1 =
      expectedVerdict header (tracked c (P.blake2b224 header.issuerVkey)) := by
  have hm : currentIssueNo c (P.blake2b224 header.issuerVkey) (some info) =
      some (tracked c (P.blake2b224 header.issuerVkey)) := by
    unfold currentIssueNo tracked
    split
    · next stored h => rw [h]; rfl
    · next h => rw [h]; rfl
  have hv' : header.issuerVkey.isEmpty = false := by simpa using hv
  simp only [checkOpcertCounter, hv', Bool.false_eq_true, if_false, hm, hs, if_true,
    expectedVerdict]
  split
  · rfl
  · split
    · split <;> rfl
    · rfl

/-- Along every run of a strict engine that starts without counters, the verdict on the next header
of a pool whose entry the map kept is the one of the highest counter the pool has used. -/
theorem opcert_verdict_of_history (P : Crypto) (c c' : OuroborosPraos) (evs : List ChainEvent)
    (header : BlockHeader) (info : BlockIssuerInfo) (hs : c.strictVerification = true)
    (hempty : c.opcertCounters = ∅) (hrun : runChain P c evs = some c')
    (hv : header.issuerVkey ≠ []) (hkept : EntryKept P (P.blake2b224 header.issuerVkey) c evs) :
    (checkOpcertCounter P c' header (some info)).1 =
      expectedVerdict header (highestUsed P (P.blake2b224 header.issuerVkey) evs) := by
  have h0 : tracked c (P.blake2b224 header.issuerVkey) = 0 := by
    rw [tracked, hempty, lookup_empty]
    rfl
  rw [checkOpcertCounter_verdict (runChain_strict hs hrun) hv, tracked_run hs hkept hrun, h0,
    highestUsed]

end

/-! ## Where the history is lost

A pool that uses counter one and then counter two is within bounds. It is rejected after a pruning
that does not list it, and it is rejected if its first header found the map full. For the second case
the chain starts with one header each of as many pools as the map takes. -/

/-- The sample header under the `k`-th cold key, with counter `n`. -/
def issuerHeader (k n : Nat) : BlockHeader :=
  { sampleHeader with
    issuerVkey := beBytes 32 k
    operationalCert := { sampleHeader.operationalCert with sequenceNumber := n } }

/-- The sample engine with the given counters. -/
def engineWith (counters : FinMap Hash28 Nat) : OuroborosPraos :=
  { sampleEngine with opcertCounters := counters }

variable (counters : FinMap Hash28 Nat)

theorem tracked_engineWith (poolId : Hash28) :
    tracked (engineWith counters) poolId = (counters.lookup poolId).getD 0 :=
  rfl

/-- The pool id of the `k`-th cold key. -/
def issuerId (k : Nat) : Hash28 := BitVec.ofNat 224 k

/-- The first `k` pools, each tracked at zero. -/
def firstPools : Nat → FinMap Hash28 Nat
  | 0 => ∅
  | k + 1 => (firstPools k).insert (issuerId k) 0

/-- One header of each of the first `k` pools. -/
def fillChain (k : Nat) : List ChainEvent :=
  (List.range k).map fun j => .header (sampleInput (issuerHeader j 0))

variable {j k : Nat}

theorem blake2b224_issuerHeader (n : Nat) (hk : k < 2 ^ 224) :
    sampleCrypto.blake2b224 (issuerHeader k n).issuerVkey = issuerId k := by
  change BitVec.ofNat 224 (ofBeBytes (beBytes 32 k)) = BitVec.ofNat 224 k
  rw [ofBeBytes_beBytes, mod_eq_of_lt (lt_trans hk (by decide))]

theorem issuerId_inj (hj : j < 2 ^ 224) (hk : k < 2 ^ 224)
    (h : issuerId j = issuerId k) : j = k := by
  have hmod := congrArg BitVec.toNat h
  simp only [issuerId, BitVec.toNat_ofNat] at hmod
  rwa [mod_eq_of_lt hj, mod_eq_of_lt hk] at hmod

theorem reachesCounter_issuerHeader (k n : Nat) :
    ReachesCounter sampleCrypto (engineWith counters) (sampleInput (issuerHeader k n)) := by
  refine ⟨?_, .inr ⟨rfl, ?_⟩⟩
  · have hlen : (issuerHeader k n).issuerVkey.length = 32 := beBytes_length 32 k
    have hne : (issuerHeader k n).issuerVkey.isEmpty = false := by
      rw [isEmpty_eq_false_iff]
      exact ne_nil_of_length_pos (by omega)
    have hrest : checkHeaderFieldSizes sampleHeader true = .ok () := by decide +kernel
    simp only [checkHeaderFieldSizes, bind_unit_eq_ok] at hrest
    simp only [structuralChecks, envelopeChecks, checkHeaderFieldSizes, bind_unit_eq_ok,
      rejectIf_eq_ok]
    exact ⟨⟨rfl, hne, rfl, checkField_ok_iff.2 (.inr hlen), hrest.2⟩, rfl, rfl⟩
  · change poolChecks sampleCrypto sampleEngine sampleHeader
      (some ⟨sampleCrypto.blake2b256 (List.replicate 32 3), 1, 1⟩) = .ok ()
    decide +kernel

theorem postCounterChecks_issuerHeader (k n : Nat) :
    postCounterChecks sampleCrypto (engineWith counters) (issuerHeader k n) .full = .ok () := by
  have hvrf : verifyVrfProof sampleCrypto sampleEngine sampleHeader = .ok () := by decide +kernel
  have hwindow : InKesWindow sampleEngine sampleHeader := by
    unfold InKesWindow
    decide
  have hoffset : kesPeriodOffset sampleEngine sampleHeader < 2 ^ 32 := by decide
  have hsig : verifyOpcertSignature sampleCrypto (issuerHeader k n).issuerVkey
      (issuerHeader k n).operationalCert = true := by
    simp only [verifyOpcertSignature, Crypto.ed25519Verify, Bool.and_eq_true, decide_eq_true_eq]
    exact ⟨⟨beBytes_length 32 k, length_replicate⟩, beq_self_eq_true (List.replicate 64 1)⟩
  simp only [postCounterChecks, cryptoChecks, validateOperationalCert, if_true, bind_unit_eq_ok,
    rejectIf_eq_ok, hsig]
  refine ⟨validateKesPeriod_ok_iff.2 hwindow, hvrf, rfl, ⟨rfl, rfl, by simp⟩, ?_⟩
  refine (verifyKesSignature_ok_iff rfl (cons_ne_nil _ _)).2
    ⟨⟨length_replicate, length_replicate⟩, hwindow.1, hoffset, ?_⟩
  exact beq_self_eq_true (List.replicate 448 1)

/-- A pool that is not tracked may start at counter zero or one. -/
theorem chainStep_issuerHeader {counters : FinMap Hash28 Nat} {n : Nat} (hk : k < 2 ^ 224)
    (hn : n ≤ 1) (hnone : counters.lookup (issuerId k) = none) :
    chainStep sampleCrypto (engineWith counters) (.header (sampleInput (issuerHeader k n))) =
      some (engineWith (recordOpcertCounter counters (issuerId k) n)) := by
  have hcur : currentIssueNo (engineWith counters)
      (sampleCrypto.blake2b224 (issuerHeader k n).issuerVkey)
      (sampleInput (issuerHeader k n)).issuerInfo = some 0 := by
    rw [blake2b224_issuerHeader n hk, currentIssueNo]
    have h : (engineWith counters).opcertCounters.lookup (issuerId k) = none := hnone
    rw [h]
    rfl
  have hok : (validateHeaderFull sampleCrypto (engineWith counters)
      (sampleInput (issuerHeader k n))).1 = .ok () := by
    refine (validateHeaderFull_ok_iff rfl).2 ⟨reachesCounter_issuerHeader counters k n, ?_, ?_,
      postCounterChecks_issuerHeader counters k n⟩
    · rintro ⟨m, hm, hlt⟩
      cases hcur.symm.trans hm
      exact not_lt_zero _ hlt
    · rintro ⟨m, hm, -, -, hlt⟩
      cases hcur.symm.trans hm
      exact absurd (lt_of_lt_of_le hlt hn) (by decide)
  have heng := validateHeaderFull_ok_engine rfl hok
  have hpair : validateHeaderFull sampleCrypto (engineWith counters)
      (sampleInput (issuerHeader k n)) =
      (.ok (), recorded sampleCrypto (engineWith counters) (issuerHeader k n)) :=
    Prod.ext hok heng
  simp only [chainStep, hpair, recorded, OuroborosPraos.record, blake2b224_issuerHeader n hk]
  rfl

theorem lookup_firstPools_of_le (hkj : k ≤ j) (hj : j < 2 ^ 224) :
    (firstPools k).lookup (issuerId j) = none := by
  induction k with
  | zero => exact lookup_empty _
  | succ k ih =>
    have hne : issuerId j ≠ issuerId k := fun h => by
      have := issuerId_inj hj (by omega) h
      omega
    rw [firstPools, lookup_insert_of_ne _ hne, ih (by omega)]

theorem size_firstPools (hk : k < 2 ^ 224) : (firstPools k).size = k := by
  induction k with
  | zero => rfl
  | succ k ih =>
    rw [firstPools, FinMap.size_insert_of_lookup_none
      (lookup_firstPools_of_le (le_refl k) (by omega)), ih (by omega)]

theorem runChain_append (P : Crypto) (c : OuroborosPraos) (evs : List ChainEvent)
    (ev : ChainEvent) :
    runChain P c (evs ++ [ev]) = (runChain P c evs).bind fun c' => chainStep P c' ev := by
  induction evs generalizing c with
  | nil =>
    rw [nil_append, runChain, runChain, bind_some]
    exact bind_fun_some _
  | cons e evs ih => simp only [cons_append, runChain, bind_assoc, ih]

theorem runChain_fillChain (hk : k ≤ maxOpcertEntries) :
    runChain sampleCrypto sampleEngine (fillChain k) = some (engineWith (firstPools k)) := by
  induction k with
  | zero => rfl
  | succ k ih =>
    have hlt : k < 2 ^ 224 := lt_of_lt_of_le hk (by decide)
    have hnone := lookup_firstPools_of_le (le_refl k) hlt
    have hroom : (firstPools k).size < maxOpcertEntries := by
      rw [size_firstPools hlt]
      exact hk
    have happ : fillChain (k + 1) = fillChain k ++ [.header (sampleInput (issuerHeader k 0))] := by
      simp only [fillChain, range_succ, map_append, map_cons, map_nil]
    rw [happ, runChain_append, ih (by omega), bind_some,
      chainStep_issuerHeader hlt (zero_le 1) hnone, firstPools, recordOpcertCounter, hnone]
    simp only [hroom, if_true]

theorem usedCounters_append (P : Crypto) (poolId : Hash28) (evs evs' : List ChainEvent) :
    usedCounters P poolId (evs ++ evs') = usedCounters P poolId evs ++ usedCounters P poolId evs' := by
  induction evs with
  | nil => rfl
  | cons ev evs ih =>
    rw [cons_append, usedCounters_cons, ih, usedCounters_cons ev evs, append_assoc]

theorem usedCounters_fillChain (hkj : k ≤ j) (hj : j < 2 ^ 224) :
    usedCounters sampleCrypto (issuerId j) (fillChain k) = [] := by
  induction k with
  | zero => rfl
  | succ k ih =>
    have hne : issuerId k ≠ issuerId j := fun h => by
      have := issuerId_inj (by omega) hj h
      omega
    have hhash := blake2b224_issuerHeader (k := k) 0 (by omega)
    simp only [fillChain, range_succ, map_append, map_cons, map_nil, usedCounters_append] at ih ⊢
    rw [ih (by omega)]
    simp only [usedCounters, sampleInput, hhash, hne, if_false, nil_append]

/-- The pool has used counter one and is dropped by a pruning without pools. -/
def prunedChain : List ChainEvent := [.header (sampleInput (issuerHeader 0 1)), .prune ∅]

/-- The pool has used counter one when the map was full. -/
def fullChain : List ChainEvent :=
  fillChain maxOpcertEntries ++ [.header (sampleInput (issuerHeader maxOpcertEntries 1))]

/-- Two runs of accepted headers after which the pool's counter two is rejected, though the highest
counter it has used is one: the first loses the pool at a pruning, the second to the cap. -/
theorem opcert_verdict_loses_history :
    (∃ c', runChain sampleCrypto sampleEngine prunedChain = some c' ∧
      (checkOpcertCounter sampleCrypto c' (issuerHeader 0 2) (some ⟨0, 1, 1⟩)).1 =
        .error (.opcertCounterOverIncremented 2 0) ∧
      expectedVerdict (issuerHeader 0 2) (highestUsed sampleCrypto (issuerId 0) prunedChain) =
        .ok ()) ∧
    (∃ c', runChain sampleCrypto sampleEngine fullChain = some c' ∧
      (checkOpcertCounter sampleCrypto c' (issuerHeader maxOpcertEntries 2)
        (some ⟨0, 1, 1⟩)).1 = .error (.opcertCounterOverIncremented 2 0) ∧
      expectedVerdict (issuerHeader maxOpcertEntries 2)
        (highestUsed sampleCrypto (issuerId maxOpcertEntries) fullChain) = .ok ()) := by
  have hbig : maxOpcertEntries < 2 ^ 224 := by decide
  have hnone := lookup_firstPools_of_le (le_refl maxOpcertEntries) hbig
  refine ⟨⟨pruneOpcertCounters (engineWith (recordOpcertCounter ∅ (issuerId 0) 1)) ∅, ?_, ?_, ?_⟩,
    ⟨engineWith (firstPools maxOpcertEntries), ?_, ?_, ?_⟩⟩
  · change (chainStep sampleCrypto (engineWith ∅) _).bind _ = _
    rw [chainStep_issuerHeader (by decide) (le_refl 1) (lookup_empty _)]
    rfl
  · decide +kernel
  · decide +kernel
  · -- The map is full, so recording the counter changes nothing.
    have hfull : recordOpcertCounter (firstPools maxOpcertEntries) (issuerId maxOpcertEntries) 1 =
        firstPools maxOpcertEntries :=
      (recordOpcertCounter_eq_self_iff _ _ _).2 (.inr ⟨hnone, (size_firstPools hbig).ge⟩)
    rw [fullChain, runChain_append, runChain_fillChain (le_refl _), bind_some,
      chainStep_issuerHeader hbig (le_refl 1) hnone, hfull]
  · have hv : (issuerHeader maxOpcertEntries 2).issuerVkey ≠ [] :=
      ne_nil_of_length_pos (by rw [issuerHeader, beBytes_length]; decide)
    have htracked : tracked (engineWith (firstPools maxOpcertEntries)) (issuerId maxOpcertEntries) =
        0 := by
      rw [tracked_engineWith, hnone]
      rfl
    rw [checkOpcertCounter_verdict rfl hv, blake2b224_issuerHeader 2 hbig, htracked]
    decide +kernel
  · have hused : usedCounters sampleCrypto (issuerId maxOpcertEntries) fullChain = [1] := by
      rw [fullChain, usedCounters_append, usedCounters_fillChain (le_refl _) hbig, nil_append]
      rfl
    rw [highestUsed, hused]
    decide +kernel

/-- A pool that uses counter zero and is listed by the pruning after it: its counter two is rejected
as it should be. -/
theorem opcert_verdict_of_kept_entry :
    (checkOpcertCounter sampleCrypto
        (pruneOpcertCounters (engineWith (firstPools 1)) {issuerId 0}) (issuerHeader 0 2)
        (some ⟨0, 1, 1⟩)).1 =
      expectedVerdict (issuerHeader 0 2)
        (highestUsed sampleCrypto (sampleCrypto.blake2b224 (issuerHeader 0 2).issuerVkey)
          (fillChain 1 ++ [.prune {issuerId 0}])) := by
  have hrun : runChain sampleCrypto sampleEngine (fillChain 1 ++ [.prune {issuerId 0}]) =
      some (pruneOpcertCounters (engineWith (firstPools 1)) {issuerId 0}) := by
    rw [runChain_append, runChain_fillChain (by decide), bind_some, chainStep]
  refine opcert_verdict_of_history sampleCrypto sampleEngine _ _ (issuerHeader 0 2) ⟨0, 1, 1⟩ rfl rfl
    hrun (ne_nil_of_length_pos (by rw [issuerHeader, beBytes_length]; decide)) ?_
  rw [blake2b224_issuerHeader 2 (by decide)]
  exact ⟨fun _ => .inr (by decide), fun c' _ => ⟨fun _ => Finset.mem_singleton_self _,
    fun _ _ => trivial⟩⟩

end Dugite
