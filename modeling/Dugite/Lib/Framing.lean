import Mathlib.Data.List.Infix

/-!
# Items in a stream

A reader looks at the beginning of a list and says how many symbols it takes. It is `Local` if it
decides by the symbols it takes: it takes the same from every list that starts with them. A
`Detector` is a local reader that takes something. An item is a list that the detector takes whole,
and a stream that is the concatenation of items is cut into just these, however much of it is there
when one looks (`Detector.next_of_boundary`, `Detector.eq_nil_of_boundary_none`).

`pieces` and `on` are what a list of keyed pieces holds for one key, as pieces and as symbols.
-/

namespace Framing

open List

variable {α : Type*}

/-! ## Local readers -/

/-- The reader decides by what it takes. -/
def Local (read : List α → Option Nat) : Prop :=
  ∀ ⦃d n⦄, read d = some n → n ≤ d.length ∧ ∀ d', d.take n <+: d' → read d' = some n

variable {d d' : List α} {read : List α → Option Nat} {n m k : Nat}

theorem isPrefix_drop_of_take_add (h : d.take (n + m) <+: d') :
    (d.drop n).take m <+: d'.drop n := by
  have hdrop := h.drop n
  rwa [drop_take, Nat.add_sub_cancel_left] at hdrop

theorem isPrefix_of_take_add (h : d.take (n + m) <+: d') : d.take n <+: d' :=
  (take_prefix_take_left (Nat.le_add_right n m)).trans h

/-- `n` symbols and then what a second reader takes. -/
def after (n : Nat) (read : List α → Option Nat) (d : List α) : Option Nat :=
  (read (d.drop n)).map (n + ·)

theorem after_eq_some : after n read d = some k ↔ ∃ m, read (d.drop n) = some m ∧ n + m = k :=
  Option.map_eq_some_iff

/-- What follows `n` symbols is read alike from every list that has it there. -/
theorem Local.after (hread : Local read) (hn : n ≤ d.length) (h : after n read d = some k) :
    n ≤ k ∧ k ≤ d.length ∧ ∀ d', d.take k <+: d' → Framing.after n read d' = some k := by
  obtain ⟨m, hm, rfl⟩ := after_eq_some.1 h
  obtain ⟨hle, hstable⟩ := hread hm
  rw [length_drop] at hle
  refine ⟨Nat.le_add_right n m, by omega, fun d' hd' => ?_⟩
  exact after_eq_some.2 ⟨m, hstable _ (isPrefix_drop_of_take_add hd'), rfl⟩

/-- A reader used `count` times. -/
def times (read : List α → Option Nat) : Nat → List α → Option Nat
  | 0, _ => some 0
  | count + 1, d => (read d).bind fun n => after n (times read count) d

theorem local_times (hread : Local read) (count : Nat) : Local (times read count) := by
  induction count with
  | zero =>
    intro d n h
    cases h
    exact ⟨Nat.zero_le _, fun _ _ => rfl⟩
  | succ count ih =>
    intro d k h
    obtain ⟨n, hn, hrest⟩ := Option.bind_eq_some_iff.1 h
    obtain ⟨hle, hstable⟩ := hread hn
    obtain ⟨hnk, hk, hafter⟩ := ih.after hle hrest
    refine ⟨hk, fun d' hd' => Option.bind_eq_some_iff.2 ⟨n, hstable d' ?_, hafter d' hd'⟩⟩
    exact (take_prefix_take_left hnk).trans hd'

/-! ## Detectors -/

structure Detector (α : Type*) where
  boundary : List α → Option Nat
  stable : Local boundary
  pos : ∀ {d n}, boundary d = some n → 0 < n

variable (D : Detector α)

/-- One whole item. -/
def Detector.Item (m : List α) : Prop := D.boundary m = some m.length

instance (m : List α) : Decidable (D.Item m) := inferInstanceAs (Decidable (_ = _))

variable {D} {items : List (List α)}

theorem Detector.Item.append {m : List α} (h : D.Item m) (rest : List α) :
    D.boundary (m ++ rest) = some m.length := by
  refine (D.stable h).2 _ ?_
  rw [take_length]
  exact prefix_append m rest

/-- What the detector finds at the beginning of a stream of items is the first of them. -/
theorem Detector.next_of_boundary {rest : List α} {n : Nat}
    (hitems : ∀ m ∈ items, D.Item m) (h : d ++ rest = items.flatten) (hn : D.boundary d = some n) :
    ∃ items', items = d.take n :: items' ∧ d.drop n ++ rest = items'.flatten := by
  obtain ⟨hle, hstable⟩ := D.stable hn
  have hwhole := hstable _ (( take_prefix n d).trans (prefix_append d rest))
  cases items with
  | nil =>
    have hd : d = [] := (append_eq_nil_iff.1 h).1
    have hpos := D.pos hn
    rw [hd, length_nil] at hle
    omega
  | cons m items =>
  rw [flatten_cons] at h
  rw [h, (hitems m mem_cons_self).append] at hwhole
  cases hwhole
  have hm : d.take m.length = m := by
    have htake := congrArg (List.take m.length) h
    rwa [take_append_of_le_length hle, take_left] at htake
  refine ⟨items, by rw [hm], ?_⟩
  have hdrop := congrArg (List.drop m.length) h
  rwa [drop_append_of_le_length hle, drop_left] at hdrop

/-- As long as items are left, the detector finds one. -/
theorem Detector.eq_nil_of_boundary_none
    (hitems : ∀ m ∈ items, D.Item m) (h : D.boundary items.flatten = none) : items = [] := by
  cases items with
  | nil => rfl
  | cons m items =>
    rw [flatten_cons, (hitems m mem_cons_self).append] at h
    cases h

/-! ## Keyed pieces -/

variable {K : Type*} [DecidableEq K]

/-- The pieces of one key. -/
def pieces (k : K) (l : List (K × List α)) : List (List α) := (l.filter fun p => p.1 = k).map (·.2)

/-- The symbols of one key. -/
def on (k : K) (l : List (K × List α)) : List α := (pieces k l).flatten

variable (k : K)

@[simp] theorem pieces_append (l l' : List (K × List α)) :
    pieces k (l ++ l') = pieces k l ++ pieces k l' := by
  simp [pieces]

variable (p : K × List α)

@[simp] theorem pieces_singleton : pieces k [p] = if p.1 = k then [p.2] else [] := by
  by_cases h : p.1 = k
  · simp [pieces, h]
  · simp [pieces, h]

@[simp] theorem on_nil : on k ([] : List (K × List α)) = [] := rfl

@[simp] theorem on_append (l l' : List (K × List α)) : on k (l ++ l') = on k l ++ on k l' := by
  simp [on]

@[simp] theorem on_singleton : on k [p] = if p.1 = k then p.2 else [] := by
  by_cases h : p.1 = k
  · simp [on, h]
  · simp [on, h]

theorem on_cons (l : List (K × List α)) : on k (p :: l) = on k [p] ++ on k l := on_append k [p] l

end Framing
