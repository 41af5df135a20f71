import Dugite.Primitives.Transaction
import Mathlib.Data.Prod.Lex

/-!
# The era history

Each era has its own epoch size and slot length, begins where the one before it ends, and is found
by a slot, an epoch or a time that lies in it. Eras may be empty. Inside one era the conversions are
divisions with remainder; an era that ends before another begins does so in all three measures
(`Precedes`), so the conversions are inverse to each other and monotone over the whole history
(`conversions_inverse`).

Times are nanoseconds. `UtcClock` is the range of the calendar that the source uses; an addition
that leaves it panics, which is the inner `none` of `slotToWallclock`.
-/

namespace Dugite

open List Nat

structure EraParams where
  epochSize : Nat
  slotLengthMs : Nat

/-- Where an era starts or ends. -/
structure Bound where
  /-- Picoseconds since the system start. -/
  timePico : Nat
  slot : Nat
  epoch : Nat

def Bound.origin : Bound := ⟨0, 0, 0⟩

structure EraSummaryEntry where
  era : Era
  start : Bound
  /-- Not part of the era; the current one has no end yet. -/
  «end» : Option Bound
  params : EraParams

inductive PastHorizonError where
  | slot (slot : Nat)
  | epoch (epoch : Nat)
  | time (timePico : Nat)
  | beforeSystemStart
  | zeroSlotLength
  deriving DecidableEq

namespace EraSummaryEntry

variable (e : EraSummaryEntry)

/-- Whether a position lies in the era, by one of the three measures. -/
def contains (measure : Bound → Nat) (x : Nat) : Bool :=
  if x < measure e.start then false
  else match e.end with
    | some bound => decide (x < measure bound)
    | none => true

abbrev containsSlot (slot : Nat) : Bool := e.contains Bound.slot slot

abbrev containsEpoch (epoch : Nat) : Bool := e.contains Bound.epoch epoch

abbrev containsTimePico (timePico : Nat) : Bool := e.contains Bound.timePico timePico

/-- The epoch of a slot of the era, and the slot's offset there. -/
def epochOf (slot : Nat) : Nat × Nat :=
  (e.start.epoch + (slot - e.start.slot) / e.params.epochSize,
    (slot - e.start.slot) % e.params.epochSize)

/-- The time at which a slot of the era begins, in picoseconds. -/
def timeOf (slot : Nat) : Nat :=
  e.start.timePico + (slot - e.start.slot) * e.params.slotLengthMs * 1000000000

def computeEndBound (transitionEpoch : Nat) : Bound :=
  let epochsInEra := wrapSub transitionEpoch e.start.epoch
  let slotsInEra := epochsInEra * e.params.epochSize % 2 ^ 64
  { timePico := (e.start.timePico + slotsInEra * e.params.slotLengthMs * 1000000000) % 2 ^ 128
    slot := wrapAdd e.start.slot slotsInEra
    epoch := transitionEpoch }

end EraSummaryEntry

/-- The closed eras, in order, and the current one. -/
structure EraHistory where
  closed : List EraSummaryEntry
  current : EraSummaryEntry

/-- The times that the calendar has. -/
structure UtcClock where
  first : Int
  last : Int
  /-- Any two of them are less than `2 ^ 63` seconds apart. -/
  narrow : last - first < 2 ^ 63 * 1000000000

def UtcClock.add (clock : UtcClock) (time duration : Int) : Option Int :=
  if clock.first ≤ time + duration ∧ time + duration ≤ clock.last then some (time + duration)
  else none

def picoToUtc (clock : UtcClock) (relativePico : Nat) (systemStart : Int) : Option Int :=
  let totalSecs := Int.bmod (relativePico / 1000000000000 : Nat) (2 ^ 64)
  let remainingNanos := relativePico % 1000000000000 / 1000
  (clock.add systemStart (totalSecs * 1000000000)).bind (clock.add · remainingNanos)

namespace EraHistory

/-- `from_genesis`. Byron is closed at the transition, which may be its start. -/
def fromGenesis (byronParams shelleyParams : EraParams) (shelleyTransitionEpoch : Nat) :
    EraHistory :=
  let byronEnd : Bound :=
    if shelleyTransitionEpoch = 0 then .origin
    else
      let slots := shelleyTransitionEpoch * byronParams.epochSize % 2 ^ 64
      { timePico := slots * byronParams.slotLengthMs * 1000000000 % 2 ^ 128
        slot := slots
        epoch := shelleyTransitionEpoch }
  { closed := [⟨.byron, .origin, some byronEnd, byronParams⟩]
    current := ⟨.shelley, byronEnd, none, shelleyParams⟩ }

variable (h : EraHistory)

/-- `record_era_transition`: the current era is closed, and the new one has its parameters. -/
def recordEraTransition (newEra : Era) (transitionEpoch : Nat) : EraHistory :=
  let endBound := h.current.computeEndBound transitionEpoch
  { closed := h.closed ++ [{ h.current with «end» := some endBound }]
    current := ⟨newEra, endBound, none, h.current.params⟩ }

def entries : List EraSummaryEntry := h.closed ++ [h.current]

/-- The current era if it contains the position, and else the first one that does. -/
def findEra (holds : EraSummaryEntry → Bool) (error : PastHorizonError) :
    Except PastHorizonError EraSummaryEntry :=
  if holds h.current then .ok h.current
  else match h.entries.find? holds with
    | some e => .ok e
    | none => .error error

def findEraForSlot (slot : Nat) := h.findEra (·.containsSlot slot) (.slot slot)

def findEraForEpoch (epoch : Nat) := h.findEra (·.containsEpoch epoch) (.epoch epoch)

def findEraForTimePico (timePico : Nat) :=
  h.findEra (·.containsTimePico timePico) (.time timePico)

/-- A slot's epoch and its offset there. -/
def slotToEpoch (slot : Nat) : Except PastHorizonError (Nat × Nat) := do
  let e ← h.findEraForSlot slot
  let slotsIntoEra := wrapSub slot e.start.slot
  return (wrapAdd e.start.epoch (slotsIntoEra / e.params.epochSize),
    slotsIntoEra % e.params.epochSize)

def epochFirstSlot (epoch : Nat) : Except PastHorizonError Nat := do
  let e ← h.findEraForEpoch epoch
  let epochsIntoEra := wrapSub epoch e.start.epoch
  return wrapAdd e.start.slot (epochsIntoEra * e.params.epochSize % 2 ^ 64)

def epochSize (epoch : Nat) : Except PastHorizonError Nat := do
  let e ← h.findEraForEpoch epoch
  return e.params.epochSize

def slotToWallclock (clock : UtcClock) (slot : Nat) (systemStart : Int) :
    Except PastHorizonError (Option Int) := do
  let e ← h.findEraForSlot slot
  let slotsIntoEra := wrapSub slot e.start.slot
  let relativePico :=
    (e.start.timePico + slotsIntoEra * e.params.slotLengthMs * 1000000000) % 2 ^ 128
  return picoToUtc clock relativePico systemStart

def wallclockToSlot (time systemStart : Int) : Except PastHorizonError Nat :=
  let elapsedMs := (time - systemStart).tdiv 1000000
  if elapsedMs < 0 then .error .beforeSystemStart
  else do
    let elapsedPico := elapsedMs.toNat * 1000000000
    let e ← h.findEraForTimePico elapsedPico
    let timeIntoEraPico := elapsedPico - e.start.timePico
    if e.params.slotLengthMs = 0 then .error .zeroSlotLength
    else
      let slotsIntoEra := timeIntoEraPico / (e.params.slotLengthMs * 1000000000)
      .ok (wrapAdd e.start.slot (slotsIntoEra % 2 ^ 64))

end EraHistory

/-! ## Eras in order -/

/-- In all three measures. -/
def Bound.Le (b c : Bound) : Prop := b.slot ≤ c.slot ∧ b.epoch ≤ c.epoch ∧ b.timePico ≤ c.timePico

theorem Bound.Le.trans {a b c : Bound} (hab : a.Le b) (hbc : b.Le c) : a.Le c :=
  ⟨hab.1.trans hbc.1, hab.2.1.trans hbc.2.1, hab.2.2.trans hbc.2.2⟩

def EraParams.Positive (p : EraParams) : Prop := 0 < p.epochSize ∧ 0 < p.slotLengthMs

namespace EraSummaryEntry

variable {e : EraSummaryEntry} {x te : Nat}

theorem contains_iff {measure : Bound → Nat} : e.contains measure x = true ↔
    measure e.start ≤ x ∧ ∀ bound, e.end = some bound → x < measure bound := by
  unfold contains
  split
  · simp; omega
  · cases e.end <;> simp <;> omega

/-- The end of an era that lasts until an epoch. -/
def endAt (e : EraSummaryEntry) (te : Nat) : Bound :=
  let slots := (te - e.start.epoch) * e.params.epochSize
  ⟨e.start.timePico + slots * e.params.slotLengthMs * 1000000000, e.start.slot + slots, te⟩

/-- The machine integers hold it. -/
def EndFits (e : EraSummaryEntry) (te : Nat) : Prop :=
  te ≤ u64Max ∧ (e.endAt te).slot ≤ u64Max ∧ (e.endAt te).timePico < 2 ^ 128

/-- One era is over when the other begins. -/
def Precedes (a b : EraSummaryEntry) : Prop := ∃ bound, a.end = some bound ∧ bound.Le b.start

theorem computeEndBound_eq (hle : e.start.epoch ≤ te) (hfits : e.EndFits te) :
    e.computeEndBound te = e.endAt te := by
  obtain ⟨hte, hslot, htime⟩ := hfits
  dsimp only [endAt] at hslot htime
  simp only [computeEndBound, wrapSub_of_le hle hte]
  rw [mod_eq_of_lt (a := (te - e.start.epoch) * e.params.epochSize)
    (by rw [u64Max] at hslot; omega), wrapAdd_of_le hslot, mod_eq_of_lt htime]
  rfl

/-- Its slots last some time, and its start is a whole number of milliseconds and has at least as
many slots as epochs before it. -/
def Sound (e : EraSummaryEntry) : Prop :=
  e.params.Positive ∧ e.start.epoch ≤ e.start.slot ∧ 1000000000 ∣ e.start.timePico

theorem Sound.endAt (h : e.Sound) (hle : e.start.epoch ≤ te) :
    (e.endAt te).epoch ≤ (e.endAt te).slot ∧ 1000000000 ∣ (e.endAt te).timePico := by
  refine ⟨?_, Nat.dvd_add h.2.2 (Dvd.intro_left _ rfl)⟩
  have hslots : te - e.start.epoch ≤ (te - e.start.epoch) * e.params.epochSize :=
    Nat.le_mul_of_pos_right _ h.1.1
  have hstart := h.2.1
  dsimp only [EraSummaryEntry.endAt]
  omega

end EraSummaryEntry

namespace EraHistory

open EraSummaryEntry

/-- Byron before its end is known. -/
def byronEra (params : EraParams) : EraSummaryEntry := ⟨.byron, .origin, none, params⟩

/-- The histories that begin with a genesis and record transitions at later epochs, as far as the
machine integers reach. -/
inductive Built : EraHistory → Prop
  | genesis {byronParams shelleyParams : EraParams} {te : Nat} :
    byronParams.Positive → shelleyParams.Positive → (byronEra byronParams).EndFits te →
      Built (fromGenesis byronParams shelleyParams te)
  | transition {h : EraHistory} {te : Nat} (era : Era) :
    Built h → h.current.start.epoch ≤ te → h.current.EndFits te →
      Built (h.recordEraTransition era te)

theorem fromGenesis_eq {byronParams shelleyParams : EraParams} {te : Nat}
    (hfits : (byronEra byronParams).EndFits te) : fromGenesis byronParams shelleyParams te =
      { closed := [{ byronEra byronParams with «end» := some ((byronEra byronParams).endAt te) }]
        current := ⟨.shelley, (byronEra byronParams).endAt te, none, shelleyParams⟩ } := by
  obtain ⟨-, hslot, htime⟩ := hfits
  simp only [endAt, byronEra, Bound.origin, zero_add, Nat.sub_zero] at hslot htime ⊢
  rw [fromGenesis]
  by_cases hzero : te = 0
  · simp [hzero, Bound.origin]
  · rw [u64Max] at hslot
    simp only [hzero, if_false, Nat.mod_eq_of_lt (a := te * byronParams.epochSize)
      (b := 2 ^ 64) (by omega), Nat.mod_eq_of_lt htime, Bound.origin]

/-- The closed eras follow one another up to the current one and leave no slot out. -/
structure WellFormed (h : EraHistory) : Prop where
  pairwise : h.closed.Pairwise Precedes
  before : ∀ e ∈ h.closed, e.Precedes h.current
  closed : ∀ e ∈ h.closed, e.Sound ∧ ∃ te, e.start.epoch ≤ te ∧ e.end = some (e.endAt te)
  current : h.current.Sound ∧ h.current.end = none
  covered : ∀ s < h.current.start.slot, ∃ e ∈ h.closed, e.contains Bound.slot s = true

variable {h : EraHistory}

/-- The current era is closed and another one begins. -/
theorem WellFormed.close (hw : h.WellFormed) {te : Nat}
    (hle : h.current.start.epoch ≤ te) (era : Era) {params : EraParams} (hpos : params.Positive) :
    WellFormed
      { closed := h.closed ++ [{ h.current with «end» := some (h.current.endAt te) }]
        current := ⟨era, h.current.endAt te, none, params⟩ } where
  pairwise := by
    refine pairwise_append.2 ⟨hw.pairwise, pairwise_singleton _ _, fun a ha b hb => ?_⟩
    obtain rfl := mem_singleton.1 hb
    exact hw.before a ha
  before e he := by
    rcases mem_append.1 he with he | he
    · obtain ⟨bound, hend, hbound⟩ := hw.before e he
      exact ⟨bound, hend, hbound.trans ⟨le_add_right _ _, hle, le_add_right _ _⟩⟩
    · obtain rfl := mem_singleton.1 he
      exact ⟨_, rfl, le_rfl, le_rfl, le_rfl⟩
  closed e he := by
    rcases mem_append.1 he with he | he
    · exact hw.closed e he
    · obtain rfl := mem_singleton.1 he
      exact ⟨hw.current.1, te, hle, rfl⟩
  current := ⟨⟨hpos, hw.current.1.endAt hle⟩, rfl⟩
  covered s hs := by
    rcases lt_or_ge s h.current.start.slot with hlt | hge
    · obtain ⟨e, he, hin⟩ := hw.covered s hlt
      exact ⟨e, mem_append_left _ he, hin⟩
    · refine ⟨_, mem_append_right _ (mem_singleton_self _), contains_iff.2 ⟨hge, ?_⟩⟩
      rintro _ ⟨⟩
      exact hs

theorem Built.wellFormed (hbuilt : Built h) : h.WellFormed := by
  induction hbuilt with
  | @genesis byronParams shelleyParams te hbyron hshelley hfits =>
    have hempty : WellFormed ⟨[], byronEra byronParams⟩ :=
      ⟨.nil, by simp, by simp, ⟨⟨hbyron, le_rfl, dvd_zero _⟩, rfl⟩, fun s hs => nomatch hs⟩
    rw [fromGenesis_eq hfits]
    exact hempty.close (zero_le te) .shelley hshelley
  | transition era _ hle hfits ih =>
    rw [recordEraTransition, computeEndBound_eq hle hfits]
    exact ih.close hle era ih.current.1.1

variable {h : EraHistory} {e : EraSummaryEntry} {s : Nat} {systemStart : Int} {clock : UtcClock}

namespace WellFormed

theorem mem_cases (hw : h.WellFormed) (he : e ∈ h.entries) : e.Sound ∧
    (e.end = none ∨ ∃ te, e.start.epoch ≤ te ∧ e.end = some (e.endAt te)) := by
  rcases mem_append.1 he with he | he
  · exact (hw.closed e he).imp_right .inr
  · obtain rfl := mem_singleton.1 he
    exact hw.current.imp_right .inl

/-- Every slot lies in some era. -/
theorem covers (hw : h.WellFormed) (s : Nat) : ∃ e ∈ h.entries, e.contains Bound.slot s = true := by
  rcases lt_or_ge s h.current.start.slot with hlt | hge
  · obtain ⟨e, he, hin⟩ := hw.covered s hlt
    exact ⟨e, mem_append_left _ he, hin⟩
  · refine ⟨h.current, mem_append_right _ (mem_singleton_self _), contains_iff.2 ?_⟩
    exact ⟨hge, fun bound hbound => nomatch hw.current.2.symm.trans hbound⟩

variable {a b : EraSummaryEntry}

theorem comparable (hw : h.WellFormed) (ha : a ∈ h.entries)
    (hb : b ∈ h.entries) (hne : a ≠ b) : a.Precedes b ∨ b.Precedes a := by
  have hsymm : Std.Symm fun a b : EraSummaryEntry => a.Precedes b ∨ b.Precedes a :=
    ⟨fun _ _ => Or.symm⟩
  have hpair : h.entries.Pairwise fun a b => a.Precedes b ∨ b.Precedes a := by
    refine pairwise_append.2 ⟨hw.pairwise.imp Or.inl, pairwise_singleton _ _, ?_⟩
    intro a ha b hb
    obtain rfl := mem_singleton.1 hb
    exact .inl (hw.before a ha)
  exact hpair.forall ha hb hne

section Measure
variable {measure : Bound → Nat} (hm : ∀ {b c : Bound}, b.Le c → measure b ≤ measure c) {x : Nat}
include hm

theorem unique (hw : h.WellFormed) (ha : a ∈ h.entries)
    (hb : b ∈ h.entries) (hina : a.contains measure x = true) (hinb : b.contains measure x = true) :
    a = b := by
  by_contra hne
  rcases hw.comparable ha hb hne with ⟨bound, hend, hle⟩ | ⟨bound, hend, hle⟩
  · have hbefore := (contains_iff.1 hina).2 bound hend
    exact absurd ((hm hle).trans (contains_iff.1 hinb).1) (not_le.2 hbefore)
  · have hbefore := (contains_iff.1 hinb).2 bound hend
    exact absurd ((hm hle).trans (contains_iff.1 hina).1) (not_le.2 hbefore)

/-- The era that contains a position is the one that is found. -/
theorem findEra_eq (hw : h.WellFormed) (he : e ∈ h.entries) (hin : e.contains measure x = true)
    (error : PastHorizonError) : h.findEra (·.contains measure x) error = .ok e := by
  unfold findEra
  split
  · next hcurrent =>
    have hmem : h.current ∈ h.entries := mem_append_right _ (mem_singleton_self _)
    rw [hw.unique hm hmem he hcurrent hin]
  have hsome : (h.entries.find? (·.contains measure x)).isSome := find?_isSome.2 ⟨e, he, hin⟩
  obtain ⟨found, hfound⟩ := Option.isSome_iff_exists.1 hsome
  have hholds : found.contains measure x = true := by simpa using find?_some hfound
  rw [hfound, hw.unique hm (mem_of_find?_eq_some hfound) he hholds hin]

end Measure

section At
variable (hw : h.WellFormed) (he : e ∈ h.entries) (hin : e.contains Bound.slot s = true)
include hw he hin

/-- The epoch and the time of a slot lie in its era. -/
theorem inEra : e.start.slot ≤ s ∧ e.contains Bound.epoch (e.epochOf s).1 = true ∧
    e.contains Bound.timePico (e.timeOf s) = true := by
  obtain ⟨hstart, hend⟩ := contains_iff.1 hin
  obtain ⟨⟨hpos, -⟩, hclosed⟩ := hw.mem_cases he
  refine ⟨hstart, contains_iff.2 ⟨le_add_right _ _, fun bound hbound => ?_⟩,
    contains_iff.2 ⟨le_add_right _ _, fun bound hbound => ?_⟩⟩
  all_goals
    rcases hclosed with hnone | ⟨te, hle, hsome⟩
    · cases hnone.symm.trans hbound
    cases hsome.symm.trans hbound
    have hbefore := hend _ hsome
    dsimp only [endAt, epochOf] at hbefore ⊢
  · have hdiv : (s - e.start.slot) / e.params.epochSize < te - e.start.epoch :=
      Nat.div_lt_of_lt_mul (by rw [Nat.mul_comm]; omega)
    omega
  · have hslots : s - e.start.slot < (te - e.start.epoch) * e.params.epochSize := by omega
    have hms := mul_lt_mul_of_pos_right hslots hpos.2
    rw [timeOf]
    omega

theorem slotToEpoch_eq (hs : s ≤ u64Max) : h.slotToEpoch s = .ok (e.epochOf s) := by
  have hstart := (hw.inEra he hin).1
  have hepoch := (hw.mem_cases he).1.2.1
  have hdiv := div_le_self (s - e.start.slot) e.params.epochSize
  rw [slotToEpoch, findEraForSlot, hw.findEra_eq (fun hle => hle.1) he hin]
  simp only [bind, Except.bind, pure, Except.pure, wrapSub_of_le hstart hs]
  rw [wrapAdd_of_le (by omega), epochOf]

theorem wallclock_eq (hs : s ≤ u64Max) : h.slotToWallclock clock s systemStart =
      .ok (picoToUtc clock (e.timeOf s % 2 ^ 128) systemStart) := by
  rw [slotToWallclock, findEraForSlot, hw.findEra_eq (fun hle => hle.1) he hin]
  simp only [bind, Except.bind, pure, Except.pure, wrapSub_of_le (hw.inEra he hin).1 hs, timeOf]

theorem epochFirstSlot_eq (hs : s ≤ u64Max) : h.epochFirstSlot (e.epochOf s).1 =
      .ok (e.start.slot + (s - e.start.slot) / e.params.epochSize * e.params.epochSize) := by
  obtain ⟨hstart, hinEpoch, -⟩ := hw.inEra he hin
  have hepoch := (hw.mem_cases he).1.2.1
  have hdiv := div_le_self (s - e.start.slot) e.params.epochSize
  have hmul := div_mul_le_self (s - e.start.slot) e.params.epochSize
  rw [epochFirstSlot, findEraForEpoch, hw.findEra_eq (fun hle => hle.2.1) he hinEpoch]
  simp only [bind, Except.bind, pure, Except.pure, epochOf]
  rw [wrapSub_of_le (le_add_right _ _) (by omega), Nat.add_sub_cancel_left,
    mod_eq_of_lt (by rw [u64Max] at hs; omega), wrapAdd_of_le (by omega)]

variable {e' : EraSummaryEntry} {s' : Nat} (he' : e' ∈ h.entries)
  (hin' : e'.contains Bound.slot s' = true) (hlt : s < s')
include he' hin' hlt

/-- Of two slots the earlier one is in the same era or in one that is over by then. -/
theorem era_mono : e = e' ∨ e.Precedes e' := by
  by_cases hsame : e = e'
  · exact .inl hsame
  rcases hw.comparable he he' hsame with hbefore | ⟨bound, hend, hle⟩
  · exact .inr hbefore
  have hover := (contains_iff.1 hin').2 bound hend
  have hstart := (contains_iff.1 hin).1
  have hslot := hle.1
  omega

theorem epoch_mono : toLex (e.epochOf s) < toLex (e'.epochOf s') := by
  rw [Prod.Lex.toLex_lt_toLex]
  rcases hw.era_mono he hin he' hin' hlt with rfl | ⟨bound, hend, hle⟩
  · have hstart := (hw.inEra he hin).1
    have hdiv := Nat.div_le_div_right (c := e.params.epochSize)
      (show s - e.start.slot ≤ s' - e.start.slot by omega)
    have hsplit := div_add_mod (s - e.start.slot) e.params.epochSize
    have hsplit' := div_add_mod (s' - e.start.slot) e.params.epochSize
    rcases hdiv.lt_or_eq with hless | heq
    · exact .inl (Nat.add_lt_add_left hless _)
    refine .inr ⟨congrArg (_ + ·) heq, ?_⟩
    rw [heq] at hsplit
    dsimp only [epochOf]
    omega
  · have hover := (contains_iff.1 (hw.inEra he hin).2.1).2 bound hend
    exact .inl (hover.trans_le (hle.2.1.trans (le_add_right _ _)))

theorem time_mono : e.timeOf s < e'.timeOf s' := by
  rcases hw.era_mono he hin he' hin' hlt with rfl | ⟨bound, hend, hle⟩
  · have hstart := (hw.inEra he hin).1
    have hms := mul_lt_mul_of_pos_right
      (show s - e.start.slot < s' - e.start.slot by omega) (hw.mem_cases he).1.1.2
    rw [timeOf, timeOf]
    omega
  · have hover := (contains_iff.1 (hw.inEra he hin).2.2).2 bound hend
    exact hover.trans_le (hle.2.2.trans (le_add_right _ _))

end At

/-- A slot's time is a whole number of milliseconds. -/
theorem timeOf_eq (hw : h.WellFormed) (he : e ∈ h.entries) (s : Nat) :
    ∃ ms, e.timeOf s = ms * 1000000000 := by
  obtain ⟨startMs, hstart⟩ := (hw.mem_cases he).1.2.2
  refine ⟨startMs + (s - e.start.slot) * e.params.slotLengthMs, ?_⟩
  rw [timeOf, hstart]
  omega

end WellFormed

/-- The time is one that the calendar has. -/
def TimeFits (h : EraHistory) (clock : UtcClock) (systemStart : Int) (s : Nat) : Prop :=
  clock.first ≤ systemStart ∧ ∃ e ∈ h.entries, e.contains Bound.slot s = true ∧
      systemStart + (e.timeOf s / 1000 : Nat) ≤ clock.last

theorem picoToUtc_eq {ms : Nat}
    (hfirst : clock.first ≤ systemStart) (hlast : systemStart + ms * 1000000 ≤ clock.last) :
    picoToUtc clock (ms * 1000000000) systemStart = some (systemStart + ms * 1000000) := by
  have hnarrow := clock.narrow
  have hsecs : Int.bmod (ms * 1000000000 / 1000000000000 : Nat) (2 ^ 64) = (ms / 1000 : Nat) := by
    rw [show ms * 1000000000 / 1000000000000 = ms / 1000 by omega]
    exact Int.bmod_eq_of_le (by omega) (by omega)
  simp only [picoToUtc, hsecs, UtcClock.add]
  rw [if_pos (by omega), Option.bind_some, if_pos (by omega)]
  exact congrArg some (by omega)

theorem WellFormed.slotToWallclock_eq (hw : h.WellFormed)
    (hfirst : clock.first ≤ systemStart) (he : e ∈ h.entries)
    (hin : e.contains Bound.slot s = true) (hs : s ≤ u64Max)
    (hlast : systemStart + (e.timeOf s / 1000 : Nat) ≤ clock.last) :
    h.slotToWallclock clock s systemStart =
      .ok (some (systemStart + (e.timeOf s / 1000 : Nat))) := by
  have hstart := (hw.inEra he hin).1
  obtain ⟨ms, hms⟩ := hw.timeOf_eq he s
  have hnarrow := clock.narrow
  have hpico : (e.start.timePico + (s - e.start.slot) * e.params.slotLengthMs * 1000000000) %
      2 ^ 128 = ms * 1000000000 := by
    rw [← hms, timeOf]
    exact mod_eq_of_lt (by rw [timeOf] at hlast; omega)
  rw [slotToWallclock, findEraForSlot, hw.findEra_eq (fun hle => hle.1) he hin]
  simp only [bind, Except.bind, pure, Except.pure, wrapSub_of_le hstart hs, hpico]
  rw [picoToUtc_eq hfirst (by omega)]
  exact congrArg (Except.ok ∘ some) (by omega)

/-- The time of a slot leads back to it. -/
theorem WellFormed.wallclockToSlot_eq (hw : h.WellFormed) (systemStart : Int) (he : e ∈ h.entries)
    (hin : e.contains Bound.slot s = true) (hs : s ≤ u64Max) :
    h.wallclockToSlot (systemStart + (e.timeOf s / 1000 : Nat)) systemStart = .ok s := by
  obtain ⟨hstart, -, hinTime⟩ := hw.inEra he hin
  obtain ⟨ms, hms⟩ := hw.timeOf_eq he s
  have hpos := (hw.mem_cases he).1.1.2
  have helapsed : (systemStart + (e.timeOf s / 1000 : Nat) - systemStart).tdiv 1000000 = ms := by
    rw [hms, add_sub_cancel_left, Int.tdiv_eq_ediv_of_nonneg (by omega)]
    omega
  have hslots : (e.timeOf s - e.start.timePico) / (e.params.slotLengthMs * 1000000000) =
      s - e.start.slot := by
    rw [timeOf, Nat.add_sub_cancel_left, Nat.mul_assoc]
    exact Nat.mul_div_cancel _ (by omega)
  rw [wallclockToSlot, helapsed]
  simp only [Int.toNat_natCast, ← hms]
  rw [if_neg (by omega), findEraForTimePico, hw.findEra_eq (fun hle => hle.2.2) he hinTime]
  simp only [bind, Except.bind, hslots]
  rw [if_neg (by omega), mod_eq_of_lt (by rw [u64Max] at hs; omega),
    wrapAdd_of_le (by omega), Nat.add_sub_cancel' hstart]

/-- A slot is its epoch's first slot and its offset, which is less than the size of the epoch.
Epoch and offset grow with the slot, and so does the time, which leads back to the slot. -/
theorem conversions_inverse (hbuilt : Built h) (clock : UtcClock) (systemStart : Int) :
    (∀ s ≤ u64Max, ∃ epoch offset first size, h.slotToEpoch s = .ok (epoch, offset) ∧
      h.epochFirstSlot epoch = .ok first ∧ h.epochSize epoch = .ok size ∧
      first + offset = s ∧ offset < size) ∧
    (∀ s s', s < s' → s' ≤ u64Max → ∃ p p', h.slotToEpoch s = .ok p ∧ h.slotToEpoch s' = .ok p' ∧
      toLex p < toLex p') ∧
    (∀ s ≤ u64Max, h.TimeFits clock systemStart s → ∃ t,
      h.slotToWallclock clock s systemStart = .ok (some t) ∧
      h.wallclockToSlot t systemStart = .ok s) ∧
    ∀ s s', s < s' → s' ≤ u64Max → h.TimeFits clock systemStart s' → ∃ t t',
      h.slotToWallclock clock s systemStart = .ok (some t) ∧
      h.slotToWallclock clock s' systemStart = .ok (some t') ∧ t < t' := by
  have hw := hbuilt.wellFormed
  refine ⟨fun s hs => ?_, fun s s' hlt hs' => ?_, fun s hs hfits => ?_,
    fun s s' hlt hs' hfits => ?_⟩
  · obtain ⟨e, he, hin⟩ := hw.covers s
    obtain ⟨hstart, hinEpoch, -⟩ := hw.inEra he hin
    refine ⟨(e.epochOf s).1, (e.epochOf s).2, _, e.params.epochSize, hw.slotToEpoch_eq he hin hs,
      hw.epochFirstSlot_eq he hin hs, ?_, ?_, mod_lt _ (hw.mem_cases he).1.1.1⟩
    · rw [epochSize, findEraForEpoch, hw.findEra_eq (fun hle => hle.2.1) he hinEpoch]
      rfl
    · rw [epochOf, add_assoc, mul_comm, div_add_mod]
      omega
  · obtain ⟨e, he, hin⟩ := hw.covers s
    obtain ⟨e', he', hin'⟩ := hw.covers s'
    exact ⟨_, _, hw.slotToEpoch_eq he hin (by omega), hw.slotToEpoch_eq he' hin' hs',
      hw.epoch_mono he hin he' hin' hlt⟩
  · obtain ⟨hfirst, e, he, hin, hlast⟩ := hfits
    exact ⟨_, hw.slotToWallclock_eq hfirst he hin hs hlast, hw.wallclockToSlot_eq _ he hin hs⟩
  · obtain ⟨e, he, hin⟩ := hw.covers s
    obtain ⟨hfirst, e', he', hin', hlast⟩ := hfits
    have htime := hw.time_mono he hin he' hin' hlt
    obtain ⟨ms', hms'⟩ := hw.timeOf_eq he' s'
    exact ⟨_, _, hw.slotToWallclock_eq hfirst he hin (by omega) (by omega),
      hw.slotToWallclock_eq hfirst he' hin' hs' hlast, by omega⟩

/-- The range of the calendar's dates: the years from -262143 to 262142. -/
def chronoUtc : UtcClock where
  first := -8334601228800 * 1000000000
  last := 8210266876799999999999
  narrow := by decide

/-- Byron slots of 20 seconds, and slots of one second since. -/
def mainnetHistory : EraHistory := fromGenesis ⟨21600, 20000⟩ ⟨432000, 1000⟩ 208

/-- The same after the transition to Allegra. -/
def allegraHistory : EraHistory := mainnetHistory.recordEraTransition .allegra 236

theorem built_allegraHistory : Built allegraHistory :=
  .transition .allegra (.genesis ⟨by decide, by decide⟩ ⟨by decide, by decide⟩
    ⟨by decide, by decide, by decide⟩) (by decide) ⟨by decide, by decide, by decide⟩

/-- The first slot of Allegra. -/
theorem mainnet_conversions : allegraHistory.slotToEpoch 16588800 = .ok (236, 0) ∧ ∃ t,
    allegraHistory.slotToWallclock chronoUtc 16588800 1506203091000000000 = .ok (some t) ∧
      allegraHistory.wallclockToSlot t 1506203091000000000 = .ok 16588800 :=
  ⟨by rfl, (conversions_inverse built_allegraHistory chronoUtc
    1506203091000000000).2.2.1 16588800 (by decide)
    ⟨by decide, allegraHistory.current, mem_append_right _ (mem_singleton_self _),
      by decide, by decide⟩⟩

/-- A transition moves no slot, before it or after it, to another epoch or time: the new era goes on
with the parameters of the one it closes. -/
theorem conversions_kept (clock : UtcClock) (systemStart : Int) (hbuilt : Built h) {te : Nat}
    (era : Era) (hle : h.current.start.epoch ≤ te) (hfits : h.current.EndFits te)
    (hs : s ≤ u64Max) :
    let h' := h.recordEraTransition era te
    h'.slotToEpoch s = h.slotToEpoch s ∧
      h'.slotToWallclock clock s systemStart = h.slotToWallclock clock s systemStart := by
  have hw := hbuilt.wellFormed
  have hw' := (hbuilt.transition era hle hfits).wellFormed
  rw [recordEraTransition, computeEndBound_eq hle hfits] at hw' ⊢
  intro h'
  obtain ⟨e, he, hin⟩ := hw.covers s
  obtain ⟨e', he', hin', hepoch, htime⟩ : ∃ e' ∈ h'.entries, e'.contains Bound.slot s ∧
      e'.epochOf s = e.epochOf s ∧ e'.timeOf s = e.timeOf s := by
    rcases mem_append.1 he with hclosed | hcur
    · exact ⟨e, mem_append_left _ (mem_append_left _ hclosed), hin, rfl, rfl⟩
    obtain rfl := mem_singleton.1 hcur
    rcases lt_or_ge s (h.current.endAt te).slot with hlt | hge
    · refine ⟨_, mem_append_left _ (mem_append_right _ (mem_singleton_self _)),
        contains_iff.2 ⟨(contains_iff.1 hin).1, ?_⟩, rfl, rfl⟩
      rintro _ ⟨⟩
      exact hlt
    · refine ⟨_, mem_append_right _ (mem_singleton_self _), contains_iff.2 ⟨hge, nofun⟩, ?_⟩
      obtain ⟨n, rfl⟩ := exists_add_of_le hle
      obtain ⟨d, rfl⟩ := exists_add_of_le hge
      simp [epochOf, timeOf, endAt, h', add_assoc, Nat.add_sub_add_left, mul_comm n, add_mul,
        Nat.mul_add_div hw.current.1.1.1]
  rw [hw'.slotToEpoch_eq he' hin' hs, hw.slotToEpoch_eq he hin hs, hw'.wallclock_eq he' hin' hs,
    hw.wallclock_eq he hin hs, hepoch, htime]
  exact ⟨rfl, rfl⟩

theorem mainnet_kept :
    (mainnetHistory.recordEraTransition .allegra 236).slotToEpoch 16588800 =
      mainnetHistory.slotToEpoch 16588800 :=
  (conversions_kept chronoUtc 0 (.genesis ⟨by decide, by decide⟩ ⟨by decide, by decide⟩
    ⟨by decide, by decide, by decide⟩) .allegra (by decide) ⟨by decide, by decide, by decide⟩
    (by decide)).1

/-- A slot may be later than all dates. -/
theorem late_slot_has_no_time :
    mainnetHistory.slotToWallclock chronoUtc (2 ^ 63) 1506203091000000000 = .ok none := by
  decide +kernel

end EraHistory

end Dugite
