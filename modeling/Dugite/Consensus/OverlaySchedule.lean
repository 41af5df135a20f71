import Dugite.Lib.FinMap
import Dugite.Primitives.Bytes
import Mathlib.Algebra.Order.Floor.Div
import Mathlib.Data.Finset.Sort
import Mathlib.Data.Int.CardIntervalMod

/-!
# The BFT overlay schedule

While the decentralisation parameter `d` is positive, a share `d` of the slots belongs to the
genesis delegates. `lookupInOverlaySchedule` classifies a slot: outside the schedule, silent, or
assigned to one genesis key in round-robin order.

The arithmetic of the source is on `i128`; a product past its range wraps, which `wrapI128` says.
A wrapped position can be negative, and the key lookup of the source then panics: `none` of
`classifyOverlaySlot` is that panic.

The position of an offset `s` is `⌈s * d⌉`. It grows by at most one from slot to slot, and an
overlay slot is one at which it grows. So the overlay slots among the first `n` are counted by the
position of `n`, and they have the positions `0, 1, 2, …`. Every `ascInv`-th of them is active, and
the active ones go round the genesis keys (`overlay_fair`).

The ledger has the same test on `u128` (`ledgerIsOverlaySlot`). The two agree as long as the product
fits the `i128` of the consensus code.
-/

namespace Dugite

inductive OBftSlot where
  | nonActiveSlot
  | activeSlot (genesisKey : Hash28)
  deriving DecidableEq

structure OverlayContext where
  /-- Genesis key hash to delegate key hash and delegate VRF key hash. -/
  genesisDelegates : FinMap Hash28 (Hash28 × Hash32)
  genesisKeys : Finset Hash28
  (dNum dDen firstSlotOfEpoch : Nat)

def wrapI128 (x : Int) : Int := x.bmod (2 ^ 128)

def ceilingMul (x numerator denominator : Int) : Int :=
  let product := wrapI128 (x * numerator)
  if 0 < product.tmod denominator then product.tdiv denominator + 1 else product.tdiv denominator

/-- A slot is in the schedule when the rounded-up multiple of `d` grows at it. -/
def isOverlaySlot (firstSlot dNum dDen slot : Nat) : Bool :=
  if dNum = 0 ∨ dDen = 0 then false
  else
    let s : Int := satSub slot firstSlot
    decide (ceilingMul s dNum dDen < ceilingMul (s + 1) dNum dDen)

section
variable (firstSlot : Nat) (genesisKeys : Finset Hash28) (dNum dDen fNum fDen slot : Nat)

def classifyOverlaySlot : Option OBftSlot :=
  if genesisKeys.card = 0 then some .nonActiveSlot
  else
    let position := ceilingMul (satSub slot firstSlot : Nat) dNum dDen
    let ascInv : Int := (fDen / fNum : Nat)
    if fNum = 0 ∨ ascInv = 0 ∨ position.tmod ascInv ≠ 0 then some .nonActiveSlot
    else
      let keyIndex := (position.tdiv ascInv).tmod genesisKeys.card
      if keyIndex < 0 then none else ((genesisKeys.sort (· ≤ ·))[keyIndex.toNat]?).map .activeSlot

/-- The outer `none` is a panic, the inner one a slot outside the schedule. -/
def lookupInOverlaySchedule : Option (Option OBftSlot) :=
  if isOverlaySlot firstSlot dNum dDen slot then
    (classifyOverlaySlot firstSlot genesisKeys dNum dDen fNum fDen slot).map some
  else some none

end

open Finset Nat

/-- `is_overlay_slot` of the ledger. -/
def ledgerIsOverlaySlot (firstSlot blockSlot dNum dDen : Nat) : Bool :=
  if dNum = 0 then false
  else if dDen = 0 ∨ dDen ≤ dNum then true
  else
    let s := satSub blockSlot firstSlot
    let step (x : Nat) : Nat := (x * dNum) ⌈/⌉ dDen
    decide (step s < step (wrapAdd s 1))

/-! ## Positions -/

theorem ceilDiv_eq_div_add (p : Nat) {a : Nat} (ha : 0 < a) :
    p ⌈/⌉ a = p / a + if p % a = 0 then 0 else 1 := by
  have hdiv := div_add_mod p a
  have hmod := mod_lt p ha
  have hcomm := mul_comm a (p / a)
  split
  · rw [add_zero]
    refine Nat.div_eq_of_lt_le (by omega) ?_
    rw [succ_mul]
    omega
  · refine Nat.div_eq_of_lt_le ?_ ?_ <;> simp only [Nat.add_mul, Nat.one_mul] <;> omega

theorem ceilingMul_eq {x num den : Nat} (hden : 0 < den) (hfits : x * num < 2 ^ 127) :
    ceilingMul x num den = ((x * num) ⌈/⌉ den : Nat) := by
  have hwrap : wrapI128 ((x : Int) * num) = (x * num : Nat) := by
    exact Int.bmod_eq_of_le (by omega) (by omega)
  simp only [ceilingMul, hwrap, ceilDiv_eq_div_add _ hden]
  rw [Int.tmod_eq_emod_of_nonneg (Int.natCast_nonneg _),
    Int.tdiv_eq_ediv_of_nonneg (Int.natCast_nonneg _), ← Int.natCast_emod, ← Int.natCast_ediv]
  split <;> split <;> omega

section Schedule
variable {firstSlot dNum dDen n : Nat}

theorem position_step (hd : dNum ≤ dDen) (hden : 0 < dDen) (s : Nat) :
    (s * dNum) ⌈/⌉ dDen ≤ ((s + 1) * dNum) ⌈/⌉ dDen ∧
      ((s + 1) * dNum) ⌈/⌉ dDen ≤ (s * dNum) ⌈/⌉ dDen + 1 := by
  have hmul : (s + 1) * dNum = s * dNum + dNum := succ_mul s dNum
  have hhere : s * dNum ≤ dDen * ((s * dNum) ⌈/⌉ dDen) := (ceilDiv_le_iff_le_mul hden).1 le_rfl
  have hnext : (s + 1) * dNum ≤ dDen * (((s + 1) * dNum) ⌈/⌉ dDen) :=
    (ceilDiv_le_iff_le_mul hden).1 le_rfl
  refine ⟨(ceilDiv_le_iff_le_mul hden).2 (by omega), (ceilDiv_le_iff_le_mul hden).2 ?_⟩
  rw [mul_succ]
  omega

theorem isOverlaySlot_iff (hden : 0 < dDen) {s slot : Nat} (hs : satSub slot firstSlot = s)
    (hfits : (s + 1) * dNum < 2 ^ 127) : isOverlaySlot firstSlot dNum dDen slot = true ↔
      (s * dNum) ⌈/⌉ dDen < ((s + 1) * dNum) ⌈/⌉ dDen := by
  have hhere : s * dNum < 2 ^ 127 := by
    have hmul : (s + 1) * dNum = s * dNum + dNum := succ_mul s dNum
    omega
  rw [isOverlaySlot, hs]
  split
  · next hzero =>
    obtain rfl : dNum = 0 := by omega
    simp
  · have hcast : ((s : Int) + 1) = ((s + 1 : Nat) : Int) := rfl
    simp only [hcast, ceilingMul_eq hden hhere, ceilingMul_eq hden hfits, decide_eq_true_iff]
    omega

/-- At an overlay slot the position grows by one, and elsewhere it stays. -/
theorem position_succ (firstSlot : Nat) (hd : dNum ≤ dDen) (hden : 0 < dDen) {s : Nat}
    (hfits : (s + 1) * dNum < 2 ^ 127) :
    ((s + 1) * dNum) ⌈/⌉ dDen = (s * dNum) ⌈/⌉ dDen +
      if isOverlaySlot firstSlot dNum dDen (firstSlot + s) = true then 1 else 0 := by
  have hstep := position_step hd hden s
  have hiff := isOverlaySlot_iff hden (Nat.add_sub_cancel_left firstSlot s) hfits
  split
  · next hoverlay =>
    have hgrows := hiff.1 hoverlay
    omega
  · next hoverlay =>
    have hstays := mt hiff.2 hoverlay
    omega

theorem count_overlaySlots (hd : dNum ≤ dDen) (hden : 0 < dDen) (hfits : n * dNum < 2 ^ 127) :
    count (fun s => isOverlaySlot firstSlot dNum dDen (firstSlot + s) = true) n =
      (n * dNum) ⌈/⌉ dDen := by
  induction n with
  | zero => simp
  | succ n ih =>
    have hmul : (n + 1) * dNum = n * dNum + dNum := succ_mul n dNum
    rw [count_succ, ih (by omega), position_succ firstSlot hd hden hfits]

theorem ceil_mul_div (hden : 0 < dDen) : ⌈(n : ℚ) * (dNum / dDen)⌉₊ = (n * dNum) ⌈/⌉ dDen := by
  refine eq_of_forall_ge_iff fun c => ?_
  rw [ceil_le, ceilDiv_le_iff_le_mul hden, ← mul_div_assoc,
    div_le_iff₀ (cast_pos.2 hden), mul_comm (c : ℚ)]
  exact_mod_cast Iff.rfl

theorem ledgerIsOverlaySlot_eq (hd : dNum ≤ dDen) (hden : 0 < dDen) {slot : Nat}
    (hslot : satSub slot firstSlot < u64Max)
    (hfits : (satSub slot firstSlot + 1) * dNum < 2 ^ 127) :
    ledgerIsOverlaySlot firstSlot slot dNum dDen = isOverlaySlot firstSlot dNum dDen slot := by
  have hwrap : wrapAdd (satSub slot firstSlot) 1 = satSub slot firstSlot + 1 :=
    mod_eq_of_lt (by rw [u64Max] at hslot; omega)
  have hiff := isOverlaySlot_iff hden rfl hfits
  simp only [ledgerIsOverlaySlot, hwrap]
  split
  · next hzero => simp [isOverlaySlot, hzero]
  split
  · next hone =>
    -- every slot is one when `d` is one
    obtain rfl : dNum = dDen := by omega
    have hmul : ∀ x, (x * dNum) ⌈/⌉ dNum = x := fun x => by
      rw [mul_comm]
      exact smul_ceilDiv hden x
    rw [eq_comm, hiff, hmul, hmul]
    omega
  · exact Bool.eq_iff_iff.2 (by rw [hiff, decide_eq_true_iff])

/-! ## The genesis keys -/

variable {genesisKeys : Finset Hash28} {key : Hash28}

/-- The active overlay slots of a genesis key among the first `n`. -/
def assignedSlots (firstSlot : Nat) (genesisKeys : Finset Hash28) (dNum dDen fNum fDen : Nat)
    (key : Hash28) (n : Nat) : Nat :=
  count (fun s => lookupInOverlaySchedule firstSlot genesisKeys dNum dDen fNum fDen
    (firstSlot + s) = some (some (.activeSlot key))) n

/-- A key has the active slots whose number leaves the key's index. -/
theorem lookup_eq_activeSlot_iff (firstSlot fNum fDen : Nat) (hden : 0 < dDen) {s t : Nat}
    (hfits : s * dNum < 2 ^ 127) (ht : t < genesisKeys.card)
    (hkey : (genesisKeys.sort (· ≤ ·))[t]? = some key) :
    lookupInOverlaySchedule firstSlot genesisKeys dNum dDen fNum fDen (firstSlot + s) =
        some (some (.activeSlot key)) ↔
      isOverlaySlot firstSlot dNum dDen (firstSlot + s) = true ∧ fNum ≠ 0 ∧ fDen / fNum ≠ 0 ∧
        (s * dNum) ⌈/⌉ dDen % (fDen / fNum) = 0 ∧
        (s * dNum) ⌈/⌉ dDen / (fDen / fNum) % genesisKeys.card = t := by
  have hs : satSub (firstSlot + s) firstSlot = s := Nat.add_sub_cancel_left firstSlot s
  have hcard : genesisKeys.card ≠ 0 := by omega
  have hindex : ∀ j, (genesisKeys.sort (· ≤ ·))[j % genesisKeys.card]? = some key ↔
      j % genesisKeys.card = t := by
    intro j
    refine ⟨fun hj => ?_, fun hj => hj ▸ hkey⟩
    refine (List.getElem?_inj ?_ (sort_nodup genesisKeys _)).1 (hj.trans hkey.symm)
    rw [length_sort]
    exact mod_lt _ (pos_of_ne_zero hcard)
  rw [lookupInOverlaySchedule]
  split
  · next hoverlay =>
    simp only [classifyOverlaySlot, hs, hcard, if_false, ceilingMul_eq hden hfits,
      ← Int.ofNat_tmod, ← Int.ofNat_tdiv, Int.natCast_eq_zero, hoverlay, true_and]
    generalize (s * dNum) ⌈/⌉ dDen = position
    split
    · next hsilent =>
      refine iff_of_false (by simp) fun hactive => ?_
      rcases hsilent with hzero | hzero | hrest
      · exact hactive.1 hzero
      · exact hactive.2.1 hzero
      · exact hrest (Int.natCast_eq_zero.2 hactive.2.2.1)
    · next hactive =>
      rw [if_neg (by omega), Int.toNat_natCast]
      rw [← hindex, Option.map_map, Option.map_eq_some_iff]
      simp only [Function.comp_apply, Option.some.injEq, OBftSlot.activeSlot.injEq, exists_eq_right]
      push Not at hactive
      exact ⟨fun h => ⟨hactive.1, hactive.2.1, Int.natCast_eq_zero.1 hactive.2.2, h⟩,
        fun h => h.2.2.2⟩
  · next hoverlay => simp [hoverlay]

/-- The slots of a key are as many as the active slots whose number leaves its index. -/
theorem assignedSlots_eq {fNum fDen : Nat} (hd : dNum ≤ dDen) (hden : 0 < dDen)
    (hfits : n * dNum < 2 ^ 127) (hf : fNum ≠ 0) (hasc : fDen / fNum ≠ 0) {t : Nat}
    (ht : t < genesisKeys.card) (hkey : (genesisKeys.sort (· ≤ ·))[t]? = some key) :
    assignedSlots firstSlot genesisKeys dNum dDen fNum fDen key n =
      count (fun j => j % genesisKeys.card = t) ((n * dNum) ⌈/⌉ dDen ⌈/⌉ (fDen / fNum)) := by
  have hpos := pos_of_ne_zero hasc
  induction n with
  | zero => simp [assignedSlots]
  | succ n ih =>
    have hmul : (n + 1) * dNum = n * dNum + dNum := succ_mul n dNum
    have hhere : n * dNum < 2 ^ 127 := by omega
    have hlookup := lookup_eq_activeSlot_iff firstSlot fNum fDen hden hhere ht hkey
    rw [assignedSlots, count_succ, ← assignedSlots, ih hhere, position_succ firstSlot hd hden hfits]
    generalize (n * dNum) ⌈/⌉ dDen = position at hlookup ⊢
    have hlast := ceilDiv_eq_div_add position hpos
    have hnext : (position + 1) ⌈/⌉ (fDen / fNum) = position / (fDen / fNum) + 1 := by
      rw [ceilDiv_eq_add_pred_div, add_right_comm, Nat.add_sub_cancel, add_div_right _ hpos]
    by_cases hoverlay : isOverlaySlot firstSlot dNum dDen (firstSlot + n) = true
    · by_cases hactive : position % (fDen / fNum) = 0
      · simp [hlookup, hoverlay, hf, hasc, hactive, hnext, hlast, count_succ]
      · simp [hlookup, hoverlay, hactive, hnext, hlast]
    · simp [hlookup, hoverlay]

/-- No key is more than one active slot ahead of another. -/
theorem assignedSlots_le (fNum fDen : Nat) (hd : dNum ≤ dDen) (hden : 0 < dDen)
    (hfits : n * dNum < 2 ^ 127) {key' : Hash28} (hkey : key ∈ genesisKeys)
    (hkey' : key' ∈ genesisKeys) :
    assignedSlots firstSlot genesisKeys dNum dDen fNum fDen key n ≤
      assignedSlots firstSlot genesisKeys dNum dDen fNum fDen key' n + 1 := by
  have hindex : ∀ {key}, key ∈ genesisKeys →
      ∃ t, t < genesisKeys.card ∧ (genesisKeys.sort (· ≤ ·))[t]? = some key := by
    intro key hkey
    obtain ⟨t, ht⟩ := List.mem_iff_getElem?.1 ((mem_sort (· ≤ ·)).2 hkey)
    have hlt := (List.getElem?_eq_some_iff.1 ht).1
    rw [length_sort] at hlt
    exact ⟨t, hlt, ht⟩
  obtain ⟨t, ht, htkey⟩ := hindex hkey
  obtain ⟨t', ht', htkey'⟩ := hindex hkey'
  by_cases hnone : fNum = 0 ∨ fDen / fNum = 0
  · -- without an active slot coefficient all overlay slots are silent
    have hzero : assignedSlots firstSlot genesisKeys dNum dDen fNum fDen key n = 0 := by
      refine count_of_forall_not fun s hs hlookup => ?_
      have hhere := (mul_le_mul_right dNum hs.le).trans_lt hfits
      have hactive := (lookup_eq_activeSlot_iff firstSlot fNum fDen hden hhere ht htkey).1 hlookup
      exact hnone.elim hactive.2.1 hactive.2.2.1
    omega
  · push Not at hnone
    rw [assignedSlots_eq hd hden hfits hnone.1 hnone.2 ht htkey,
      assignedSlots_eq hd hden hfits hnone.1 hnone.2 ht' htkey']
    have hcount : ∀ {t}, t < genesisKeys.card → ∀ m,
        count (fun j => j % genesisKeys.card = t) m = m / genesisKeys.card +
          if t < m % genesisKeys.card then 1 else 0 := by
      intro t ht m
      have hmod := count_modEq_card m (zero_lt_of_lt ht) t
      simpa only [Nat.ModEq, mod_eq_of_lt ht] using hmod
    rw [hcount ht, hcount ht']
    split <;> omega

end Schedule

/-- Among the first `n` slots of an epoch there are `⌈n * d⌉` overlay slots, the one that `i` others
precede has position `i`, and no genesis key is ahead of another by more than one. The ledger's
test is the same. -/
theorem overlay_fair (firstSlot : Nat) (genesisKeys : Finset Hash28) (dNum dDen fNum fDen n : Nat)
    (hd : dNum ≤ dDen) (hden : 0 < dDen) (hslots : n ≤ u64Max) (hfits : n * dNum < 2 ^ 127) :
    let overlay := fun s => isOverlaySlot firstSlot dNum dDen (firstSlot + s) = true
    count overlay n = ⌈(n : ℚ) * (dNum / dDen)⌉₊ ∧
    (∀ s < n, overlay s → ceilingMul s dNum dDen = count overlay s) ∧
    (∀ key ∈ genesisKeys, ∀ key' ∈ genesisKeys,
      assignedSlots firstSlot genesisKeys dNum dDen fNum fDen key n ≤
        assignedSlots firstSlot genesisKeys dNum dDen fNum fDen key' n + 1) ∧
    ∀ slot, satSub slot firstSlot < n →
      ledgerIsOverlaySlot firstSlot slot dNum dDen = isOverlaySlot firstSlot dNum dDen slot := by
  have hsmall : ∀ {s}, s ≤ n → s * dNum < 2 ^ 127 := fun hs =>
    (mul_le_mul_right dNum hs).trans_lt hfits
  refine ⟨?_, fun s hs _ => ?_, fun key hkey key' hkey' => ?_, fun slot hslot => ?_⟩
  · rw [ceil_mul_div hden]
    exact count_overlaySlots hd hden hfits
  · rw [ceilingMul_eq hden (hsmall hs.le)]
    exact congrArg Nat.cast (count_overlaySlots hd hden (hsmall hs.le)).symm
  · exact assignedSlots_le fNum fDen hd hden hfits hkey hkey'
  · exact ledgerIsOverlaySlot_eq hd hden (by omega) (hsmall (by omega))

/-- Five slots of which every second is an overlay slot, for two genesis keys. -/
theorem half_overlay_fair :
    count (fun s => isOverlaySlot 100 1 2 (100 + s) = true) 5 = ⌈(5 : ℚ) * (1 / 2)⌉₊ ∧
      ceilingMul 4 1 2 = count (fun s => isOverlaySlot 100 1 2 (100 + s) = true) 4 ∧
      assignedSlots 100 {1, 2} 1 2 1 2 1 5 ≤ assignedSlots 100 {1, 2} 1 2 1 2 2 5 + 1 ∧
      ledgerIsOverlaySlot 100 104 1 2 = isOverlaySlot 100 1 2 104 := by
  obtain ⟨hcount, hposition, hkeys, hledger⟩ := overlay_fair 100 {1, 2} 1 2 1 2 5 (by decide)
    (by decide) (by decide) (by decide)
  refine ⟨by exact_mod_cast hcount, hposition 4 (by decide) (by decide), ?_,
    hledger 104 (by decide)⟩
  exact hkeys 1 (by decide) 2 (by decide)

/-- Past the range of `i128` the position is negative: the consensus code has no overlay slot where
the ledger has one. -/
theorem overlay_wraps :
    isOverlaySlot 0 (2 ^ 64 - 2) (2 ^ 64 - 1) (2 ^ 63 + 1) = false ∧
    ledgerIsOverlaySlot 0 (2 ^ 63 + 1) (2 ^ 64 - 2) (2 ^ 64 - 1) = true := by
  decide +kernel

end Dugite
