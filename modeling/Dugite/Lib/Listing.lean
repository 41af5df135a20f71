import Dugite.Lib.FinMap
import Mathlib.Data.List.Sort

/-!
# Finite sets as lists

A loop over a finite set needs an order. `listed key hkey s` is the list of the elements of `s` in
the order of an injective key; it has every element once (`mem_listed`, `nodup_listed`), so that a
sum along the list is the sum over the set (`sum_listed`). `entries` does the same for a map.

`lastMax` is the maximum of a list by a key, the last one of several.
-/

namespace Listing

open List Option

variable {α β V : Type*} [LinearOrder β] {key : α → β} (hkey : Function.Injective key)
  {weight : α → Nat} {l : List α} (s : Finset α) {m : FinMap α V} {a : α}

theorem pairwise_insertionSort_key (key : α → β) (l : List α) :
    (l.insertionSort fun a b => key a ≤ key b).Pairwise fun a b => key a ≤ key b :=
  haveI : IsTrans α fun a b => key a ≤ key b := ⟨fun _ _ _ => le_trans⟩
  haveI : Std.Total fun a b : α => key a ≤ key b := ⟨fun _ _ => le_total _ _⟩
  pairwise_insertionSort _ l

include hkey in
theorem insertionSort_eq_of_perm {l' : List α} (h : l.Perm l') :
    (l.insertionSort fun a b => key a ≤ key b) = l'.insertionSort fun a b => key a ≤ key b := by
  refine List.Perm.eq_of_pairwise (fun a b _ _ hab hba => hkey (le_antisymm hab hba))
    (pairwise_insertionSort_key key l) (pairwise_insertionSort_key key l') ?_
  exact (perm_insertionSort _ l).trans (h.trans (perm_insertionSort _ l').symm)

/-- The elements of a finite set in the order of a key. -/
def listed (key : α → β) (hkey : Function.Injective key) (s : Finset α) : List α :=
  Quot.liftOn s.val (fun l => l.insertionSort fun a b => key a ≤ key b)
    fun _ _ h => insertionSort_eq_of_perm hkey h

theorem coe_listed : (listed key hkey s : Multiset α) = s.val := by
  obtain ⟨m, hnodup⟩ := s
  induction m using Quot.inductionOn with
  | h l => exact Quot.sound (perm_insertionSort _ l)

@[simp] theorem mem_listed {s : Finset α} : a ∈ listed key hkey s ↔ a ∈ s := by
  rw [← Multiset.mem_coe, coe_listed, Finset.mem_val]

theorem nodup_listed : (listed key hkey s).Nodup := by
  rw [← Multiset.coe_nodup, coe_listed]
  exact s.nodup

theorem sum_listed (f : α → Nat) : ((listed key hkey s).map f).sum = ∑ a ∈ s, f a := by
  rw [Finset.sum, ← coe_listed hkey, Multiset.map_coe, Multiset.sum_coe]

section
variable [DecidableEq α]

/-- A list without repetitions has none. -/
theorem nodup_eraseDups : (l : List α) → l.eraseDups.Nodup
  | [] => nodup_nil
  | a :: l => by
    rw [eraseDups_cons, nodup_cons]
    refine ⟨?_, nodup_eraseDups (l.filter fun b => !b == a)⟩
    simp
  termination_by l => l.length
  decreasing_by exact Nat.lt_succ_of_le (length_filter_le _ l)

/-- The entries of a map in the order of their keys. -/
def entries {V : Type*} (key : α → β) (hkey : Function.Injective key)
    (m : FinMap α V) : List (α × V) :=
  (listed key hkey m.keys).filterMap fun a => (m.lookup a).map (Prod.mk a)

theorem mem_entries {v : V} : (a, v) ∈ entries key hkey m ↔ m.lookup a = some v := by
  simp only [entries, mem_filterMap, mem_listed, map_eq_some_iff, Prod.mk.injEq]
  constructor
  · rintro ⟨a', _, v', hv', rfl, rfl⟩
    exact hv'
  · intro hv
    refine ⟨a, ?_, v, hv, rfl, rfl⟩
    rw [FinMap.mem_keys, hv]
    rfl

theorem nodup_keys_entries : ((entries key hkey m).map (·.1)).Nodup := by
  rw [entries, map_filterMap]
  refine (nodup_listed hkey m.keys).filterMap fun a a' k hk hk' => ?_
  simp only [Option.map_map, Option.mem_def, Option.map_eq_some_iff, Function.comp_apply] at hk hk'
  obtain ⟨_, -, rfl⟩ := hk
  obtain ⟨_, -, heq⟩ := hk'
  exact heq.symm

theorem sum_entries (f : V → Nat) (m : FinMap α V) :
    ((entries key hkey m).map fun e => f e.2).sum = m.total f := by
  have hlist : ∀ l : List α, ((l.filterMap fun a => (m.lookup a).map (Prod.mk a)).map
      fun e => f e.2).sum = (l.map fun a => m.weightAt f a).sum := by
    intro l
    induction l with
    | nil => rfl
    | cons a l ih =>
      rw [filterMap_cons, map_cons, sum_cons, FinMap.weightAt]
      cases m.lookup a with
      | none => rw [map_none, elim_none, Nat.zero_add, ih]
      | some v => rw [map_some, map_cons, sum_cons, ih, elim_some]
  rw [entries, hlist, sum_listed, FinMap.total]

end

/-! ## Any order

A hash table runs through its keys in an order of its own. What is to hold of every such order is
stated for every `Enumeration`. -/

/-- A way to list the elements of finite sets. -/
structure Enumeration (α : Type*) where
  list : Finset α → List α
  mem_list : ∀ {s a}, a ∈ list s ↔ a ∈ s
  nodup_list : ∀ s, (list s).Nodup

/-- The entries of a map in the order of an enumeration. -/
def Enumeration.entries [DecidableEq α] {V : Type*} (order : Enumeration α) (m : FinMap α V) :
    List (α × V) :=
  (order.list m.keys).filterMap fun a => (m.lookup a).map (Prod.mk a)

theorem Enumeration.entries_perm [DecidableEq α] (order order' : Enumeration α)
    (m : FinMap α V) : (order.entries m).Perm (order'.entries m) :=
  ((perm_ext_iff_of_nodup (order.nodup_list _) (order'.nodup_list _)).2
    fun _ => order.mem_list.trans order'.mem_list.symm).filterMap _

/-- The enumeration in the order of a key. -/
def Enumeration.sorted (key : α → β) (hkey : Function.Injective key) : Enumeration α :=
  ⟨listed key hkey, mem_listed hkey, nodup_listed hkey⟩

/-- An enumeration that starts with one element wherever it is present. -/
noncomputable def Enumeration.startingWith [DecidableEq α] (a : α) : Enumeration α where
  list s := if a ∈ s then a :: (s.erase a).toList else s.toList
  mem_list := by
    intro s b
    split
    · next ha =>
      rw [mem_cons, Finset.mem_toList, Finset.mem_erase]
      by_cases hb : b = a
      · simp [hb, ha]
      · simp [hb]
    · exact Finset.mem_toList
  nodup_list := by
    intro s
    split
    · exact nodup_cons.2 ⟨by simp, Finset.nodup_toList _⟩
    · exact Finset.nodup_toList _

theorem Enumeration.list_startingWith [DecidableEq α] {s : Finset α} (h : a ∈ s) :
    (Enumeration.startingWith a).list s = a :: (s.erase a).toList :=
  if_pos h

/-! ## The last maximum -/

/-- The last element whose key is greatest (`Iterator::max_by_key`). -/
def lastMax (weight : α → Nat) : List α → Option α
  | [] => none
  | a :: l => match lastMax weight l with
    | none => some a
    | some b => if weight a ≤ weight b then some b else some a

theorem lastMax_eq_none : lastMax weight l = none ↔ l = [] := by
  cases l with
  | nil => simp [lastMax]
  | cons a l =>
  rw [lastMax]
  split
  · simp
  · split <;> simp

/-- The last maximum is an element, and no element has a greater key. -/
theorem lastMax_eq_some {b : α} (h : lastMax weight l = some b) :
    b ∈ l ∧ ∀ a ∈ l, weight a ≤ weight b := by
  induction l generalizing b with
  | nil => cases h
  | cons a l ih =>
    rw [lastMax] at h
    cases hrest : lastMax weight l with
    | none =>
      rw [hrest] at h
      cases h
      rw [lastMax_eq_none.1 hrest]
      simp
    | some c =>
    obtain ⟨hc, hmax⟩ := ih hrest
    simp only [hrest] at h
    split at h <;> cases h
    · next hle => exact ⟨mem_cons_of_mem a hc, forall_mem_cons.2 ⟨hle, hmax⟩⟩
    next hlt =>
    refine ⟨mem_cons_self, forall_mem_cons.2 ⟨le_rfl, fun x hx => ?_⟩⟩
    have := hmax x hx
    omega

end Listing
