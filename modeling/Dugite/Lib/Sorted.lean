import Mathlib.Data.List.Pairwise

/-!
# Maps and sets as strictly sorted lists

A map or a set whose elements are kept in the order of `compare`, so that the position of an element
means something. The invariant is a field: two entries with one key, or two entries out of order,
cannot be written down.

Two elements that compare equal are one element as far as a set is concerned, whether or not they
are equal: inserting the second leaves the set as it is, and erasing either removes the one that is
there.
-/

/-- A map from `K` to `V`, listed in the order of `K`. -/
structure SortedMap (K V : Type) [Ord K] where
  entries : List (K × V)
  sorted : entries.Pairwise fun a b => compare a.1 b.1 = .lt

namespace SortedMap

variable {K V : Type} [Ord K]

def empty : SortedMap K V := ⟨[], .nil⟩

instance : EmptyCollection (SortedMap K V) := ⟨empty⟩

/-- The map with one entry. -/
def single (k : K) (v : V) : SortedMap K V := ⟨[(k, v)], List.pairwise_singleton _ _⟩

def isEmpty (m : SortedMap K V) : Bool := m.entries.isEmpty

def keys (m : SortedMap K V) : List K := m.entries.map (·.1)

def values (m : SortedMap K V) : List V := m.entries.map (·.2)

def lookup [DecidableEq K] (m : SortedMap K V) (k : K) : Option V :=
  (m.entries.find? fun e => e.1 = k).map (·.2)

end SortedMap

/-- A set listed in the order of `K`. -/
structure SortedSet (K : Type*) [Ord K] where
  elems : List K
  sorted : elems.Pairwise fun a b => compare a b = .lt

namespace SortedSet

open List

variable {K : Type*} [Ord K]

def empty : SortedSet K := ⟨[], .nil⟩

instance : EmptyCollection (SortedSet K) := ⟨empty⟩

instance : Membership K (SortedSet K) := ⟨fun s k => k ∈ s.elems⟩

variable {a k : K} {s : SortedSet K} {l : List K}

theorem mem_def : k ∈ s ↔ k ∈ s.elems := Iff.rfl

def insertElem (k : K) : List K → List K
  | [] => [k]
  | a :: l => match compare k a with
    | .lt => k :: a :: l
    | .eq => a :: l
    | .gt => a :: insertElem k l

theorem mem_of_mem_insertElem (h : a ∈ insertElem k l) : a = k ∨ a ∈ l := by
  induction l with
  | nil => exact .inl (mem_singleton.1 h)
  | cons b l ih =>
    rw [insertElem] at h
    split at h
    · exact mem_cons.1 h
    · exact .inr h
    · rcases mem_cons.1 h with rfl | h
      · exact .inr mem_cons_self
      · exact (ih h).imp_right (mem_cons_of_mem b)

theorem mem_insertElem_of_mem (h : a ∈ l) : a ∈ insertElem k l := by
  induction l with
  | nil => cases h
  | cons b l ih =>
    rw [insertElem]
    split
    · exact mem_cons_of_mem k h
    · exact h
    · rcases mem_cons.1 h with rfl | h
      · exact mem_cons_self
      · exact mem_cons_of_mem b (ih h)

theorem self_mem_insertElem (h : ∀ a ∈ l, compare k a ≠ .eq) : k ∈ insertElem k l := by
  induction l with
  | nil => exact mem_singleton_self k
  | cons b l ih =>
    rw [forall_mem_cons] at h
    rw [insertElem]
    split
    · exact mem_cons_self
    · next heq => exact absurd heq h.1
    · exact mem_cons_of_mem b (ih h.2)

theorem sorted_filter (s : SortedSet K) (p : K → Bool) :
    (s.elems.filter p).Pairwise fun a b => compare a b = .lt :=
  s.sorted.sublist filter_sublist

/-- Remove the element that compares equal. -/
def erase (k : K) (s : SortedSet K) : SortedSet K :=
  ⟨s.elems.filter fun a => compare k a != .eq, s.sorted_filter _⟩

/-- The greatest element. -/
def last? (s : SortedSet K) : Option K := s.elems.getLast?

theorem mem_erase : a ∈ s.erase k ↔ a ∈ s ∧ compare k a ≠ .eq := by
  rw [mem_def, erase, mem_filter, bne_iff_ne, mem_def]

theorem mem_of_last? (h : s.last? = some k) : k ∈ s := mem_of_getLast? h

theorem last?_eq_none : s.last? = none ↔ ∀ k, k ∉ s := by
  rw [last?, getLast?_eq_none_iff, eq_nil_iff_forall_not_mem]
  rfl

/-- Erase some elements, one after the other. -/
def eraseAll (ks : List K) (s : SortedSet K) : SortedSet K := ks.foldl (fun s k => s.erase k) s

variable [Std.TransOrd K]

theorem pairwise_insertElem (h : l.Pairwise fun a b => compare a b = .lt) :
    (insertElem k l).Pairwise fun a b => compare a b = .lt := by
  induction l with
  | nil => exact pairwise_singleton _ k
  | cons b l ih =>
    obtain ⟨hb, hl⟩ := pairwise_cons.1 h
    rw [insertElem]
    split
    · next hlt =>
      refine pairwise_cons.2 ⟨forall_mem_cons.2 ⟨hlt, fun a ha => ?_⟩, h⟩
      exact Std.TransCmp.lt_trans hlt (hb a ha)
    · exact h
    next hgt =>
    refine pairwise_cons.2 ⟨fun a ha => ?_, ih hl⟩
    rcases mem_of_mem_insertElem ha with rfl | ha
    · exact Std.OrientedCmp.lt_of_gt hgt
    · exact hb a ha

/-- Add an element, unless one that compares equal is there. -/
def insert (k : K) (s : SortedSet K) : SortedSet K :=
  ⟨insertElem k s.elems, pairwise_insertElem s.sorted⟩

theorem mem_insert (h : ∀ b ∈ s, compare k b ≠ .eq) : a ∈ s.insert k ↔ a = k ∨ a ∈ s := by
  constructor
  · exact mem_of_mem_insertElem
  · rintro (rfl | ha)
    · exact self_mem_insertElem h
    · exact mem_insertElem_of_mem ha

end SortedSet
