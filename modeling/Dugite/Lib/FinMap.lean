import Mathlib.Algebra.GroupWithZero.Nat
import Mathlib.Algebra.Order.BigOperators.Group.Finset
import Mathlib.Data.Finmap

/-!
# Finite maps with a filter and a total

`FinMap K V` is Mathlib's `Finmap` at a constant family. Three things are added to it here: the
rewriting of a lookup through `insert` and `erase` as a conditional, `retain` (keep the entries a
predicate admits), and `total` (the sum of a weight over the values).

The lemmas of `total` are equations between sums, with the entry that an operation replaces on one
side and the entry it writes on the other. With them a sequence of inserts and erases is accounted
for one step at a time.
-/

/-- A finite map from `K` to `V`. -/
abbrev FinMap (K V : Type*) := Finmap (fun _ : K => V)

namespace FinMap

open Finset Option List

variable {K V : Type*} [DecidableEq K]

/-! ## Lookups -/

theorem lookup_insert_ite (k k' : K) (v : V) (m : FinMap K V) :
    (m.insert k v).lookup k' = if k' = k then some v else m.lookup k' := by
  split
  · next h => subst h; exact Finmap.lookup_insert m
  · next h => exact Finmap.lookup_insert_of_ne m h

theorem lookup_erase_ite (k k' : K) (m : FinMap K V) :
    (m.erase k).lookup k' = if k' = k then none else m.lookup k' := by
  split
  · next h => subst h; exact Finmap.lookup_erase k' m
  · next h => exact Finmap.lookup_erase_ne h

variable {m : FinMap K V} {W : Type*} {k : K}

theorem mem_keys : k ∈ m.keys ↔ (m.lookup k).isSome = true := by
  rw [Finmap.mem_keys, Finmap.lookup_isSome]

/-- Erasing an absent key changes nothing. -/
theorem erase_of_lookup_none (h : m.lookup k = none) : m.erase k = m := by
  refine Finmap.ext_lookup fun k' => ?_
  rw [lookup_erase_ite]
  split
  · next hk => rw [hk, h]
  · rfl

/-! ## Keeping some of the entries -/

section
variable (p : K → V → Bool) (m : FinMap K V)

omit [DecidableEq K] in
theorem nodupKeys_filter : (m.entries.filter fun e => p e.1 e.2).NodupKeys := by
  refine Finmap.induction_on m fun a => ?_
  change (Multiset.filter (fun e => p e.1 e.2)
    (a.entries : Multiset (Sigma fun _ : K => V))).NodupKeys
  exact a.nodupKeys.sublist filter_sublist

/-- Keep the entries of a map that a predicate admits. -/
def retain : FinMap K V := ⟨m.entries.filter fun e => p e.1 e.2, nodupKeys_filter p m⟩

theorem lookup_retain (k : K) : (m.retain p).lookup k = (m.lookup k).filter (p k) := by
  refine ext fun v => ?_
  rw [← Option.mem_def, Finmap.mem_lookup_iff, retain, Multiset.mem_filter,
    ← Finmap.mem_lookup_iff, ← Option.mem_def, Option.mem_filter_iff]

end

omit [DecidableEq K] in
theorem nodupKeys_filterMap (g : K → V → Option W) (m : FinMap K V) : (m.entries.filterMap fun e =>
      (g e.1 e.2).map fun w => (⟨e.1, w⟩ : Sigma fun _ : K => W)).NodupKeys := by
  refine Finmap.induction_on m fun a => ?_
  change (Multiset.filterMap (fun e =>
    (g e.1 e.2).map fun w => (⟨e.1, w⟩ : Sigma fun _ : K => W))
    (a.entries : Multiset (Sigma fun _ : K => V))).NodupKeys
  have hsub : ∀ l : List (Sigma fun _ : K => V), ((l.filterMap fun e =>
      (g e.1 e.2).map fun w => (⟨e.1, w⟩ : Sigma fun _ : K => W)).map Sigma.fst).Sublist
        (l.map Sigma.fst) := by
    intro l
    induction l with
    | nil => exact .slnil
    | cons e l ih =>
      rw [filterMap_cons]
      cases g e.1 e.2 with
      | none => exact ih.cons _
      | some w => exact ih.cons_cons _
  exact List.Nodup.sublist (hsub a.entries) a.nodupKeys

/-- Change the value of each entry, or drop it. -/
def filterMap {W : Type*} (g : K → V → Option W) (m : FinMap K V) : FinMap K W :=
  ⟨m.entries.filterMap fun e => (g e.1 e.2).map fun w => ⟨e.1, w⟩, nodupKeys_filterMap g m⟩

theorem lookup_filterMap (g : K → V → Option W) (m : FinMap K V) (k : K) :
    (m.filterMap g).lookup k = (m.lookup k).bind (g k) := by
  refine ext fun w => ?_
  rw [← Option.mem_def, Finmap.mem_lookup_iff, filterMap, Multiset.mem_filterMap, bind_eq_some_iff]
  constructor
  · rintro ⟨⟨k', v⟩, hv, heq⟩
    obtain ⟨w', hw', heq⟩ := map_eq_some_iff.1 heq
    obtain ⟨rfl, hw⟩ := Sigma.mk.inj heq
    exact ⟨v, Finmap.mem_lookup_iff.2 hv, hw'.trans (congrArg some (eq_of_heq hw))⟩
  · rintro ⟨v, hv, hw⟩
    exact ⟨⟨k, v⟩, Finmap.mem_lookup_iff.1 hv, map_eq_some_iff.2 ⟨w, hw, rfl⟩⟩

variable (g : V → W)

omit [DecidableEq K] in
theorem nodupKeys_map (m : FinMap K V) :
    (m.entries.map fun e => (⟨e.1, g e.2⟩ : Sigma fun _ : K => W)).NodupKeys := by
  rw [← Multiset.filterMap_eq_map]
  exact nodupKeys_filterMap (fun _ v => some (g v)) m

/-- Change every value of a map. -/
def mapValues {W : Type*} (g : V → W) (m : FinMap K V) : FinMap K W :=
  ⟨m.entries.map fun e => ⟨e.1, g e.2⟩, nodupKeys_map g m⟩

theorem lookup_mapValues (m : FinMap K V) (k : K) :
    (m.mapValues g).lookup k = (m.lookup k).map g := by
  have hsome : m.mapValues g = m.filterMap fun _ v => some (g v) :=
    Finmap.ext (congrFun (Multiset.filterMap_eq_map _) _).symm
  rw [hsome, lookup_filterMap]
  cases m.lookup k <;> rfl

theorem mapValues_insert (k : K) (v : V) (m : FinMap K V) :
    mapValues g (m.insert k v) = (m.mapValues g).insert k (g v) := by
  refine Finmap.ext_lookup fun k' => ?_
  rw [lookup_mapValues, lookup_insert_ite, lookup_insert_ite, lookup_mapValues]
  split <;> rfl

theorem mapValues_erase (k : K) (m : FinMap K V) :
    mapValues g (m.erase k) = (m.mapValues g).erase k := by
  refine Finmap.ext_lookup fun k' => ?_
  rw [lookup_mapValues, lookup_erase_ite, lookup_erase_ite, lookup_mapValues]
  split <;> rfl

/-- The number of entries. -/
def size (m : FinMap K V) : Nat := m.keys.card

theorem keys_insert (k : K) (v : V) (m : FinMap K V) : (m.insert k v).keys = insert k m.keys := by
  ext k'
  rw [Finmap.mem_keys, Finmap.mem_insert, mem_insert, Finmap.mem_keys]

theorem size_insert_of_lookup_none (h : m.lookup k = none) (v : V) :
    size (m.insert k v) = m.size + 1 := by
  rw [size, keys_insert, card_insert_of_notMem, size]
  exact Finmap.lookup_eq_none.1 h

theorem size_erase_of_lookup_some {v : V} (h : m.lookup k = some v) :
    size (m.erase k) + 1 = m.size := by
  have hmem : k ∈ m.keys := Finmap.mem_keys.2 (Finmap.mem_of_lookup_eq_some h)
  rw [size, Finmap.keys_erase, size, card_erase_add_one hmem]

/-! ## Totals -/

/-- The sum of a weight of the entries. -/
def sumBy (f : K → V → Nat) (m : FinMap K V) : Nat := ∑ k ∈ m.keys, (m.lookup k).elim 0 (f k)

section
variable (f : V → Nat) (m : FinMap K V)

/-- The weight of the value at a key, zero when there is none. -/
def weightAt (k : K) : Nat := (m.lookup k).elim 0 f

theorem weightAt_eq_getD (k : K) : m.weightAt f k = ((m.lookup k).map f).getD 0 := by
  rw [weightAt]
  cases m.lookup k <;> rfl

/-- The values found under some keys weigh what the keys do. -/
theorem sum_filterMap_lookup (keys : List K) :
    ((keys.filterMap m.lookup).map f).sum = (keys.map fun k => m.weightAt f k).sum := by
  induction keys with
  | nil => rfl
  | cons k keys ih =>
    rw [List.map_cons, List.sum_cons, ← ih, weightAt]
    cases hlook : m.lookup k <;> simp [hlook]

/-- The sum of a weight over the values of a map. -/
def total : Nat := ∑ k ∈ m.keys, m.weightAt f k

end

variable {f : V → Nat} {entries : List (K × V)} {m' : FinMap K V} {g : W → Nat}

theorem total_eq_sum {s : Finset K} (hs : m.keys ⊆ s) : m.total f = ∑ k ∈ s, m.weightAt f k := by
  refine sum_subset hs fun k _ hk => ?_
  rw [Finmap.mem_keys, ← Finmap.lookup_isSome, Bool.not_eq_true, isSome_eq_false_iff,
    isNone_iff_eq_none] at hk
  rw [weightAt, hk]
  rfl

/-- The weights at some keys are part of the total. -/
theorem sum_weightAt_le (m : FinMap K V) (s : Finset K) : ∑ k ∈ s, m.weightAt f k ≤ m.total f := by
  rw [total_eq_sum (subset_union_right : m.keys ⊆ s ∪ m.keys)]
  exact sum_le_sum_of_subset subset_union_left

/-- A change at one key changes the total by the weights there. -/
theorem total_of_weightAt_ne (h : ∀ k', k' ≠ k → m'.weightAt f k' = m.weightAt f k') :
    m'.total f + m.weightAt f k = m.total f + m'.weightAt f k := by
  have hk : k ∈ insert k (m.keys ∪ m'.keys) := mem_insert_self _ _
  have hrest : ∑ x ∈ (insert k (m.keys ∪ m'.keys)).erase k, m'.weightAt f x =
      ∑ x ∈ (insert k (m.keys ∪ m'.keys)).erase k, m.weightAt f x :=
    sum_congr rfl fun x hx => h x (ne_of_mem_erase hx)
  rw [total_eq_sum (subset_union_left.trans (subset_insert k _) : m.keys ⊆ insert k (m.keys ∪
      m'.keys)), total_eq_sum (subset_union_right.trans (subset_insert k _) : m'.keys ⊆ insert k
      (m.keys ∪ m'.keys)), ← add_sum_erase _ (m.weightAt f) hk, ← add_sum_erase _ (m'.weightAt f)
      hk, hrest]
  omega

/-- The total depends on the weights alone. -/
theorem total_congr {m' : FinMap K W}
    (h : ∀ k, m'.weightAt g k = m.weightAt f k) : m'.total g = m.total f := by
  rw [total_eq_sum (subset_union_left : m.keys ⊆ m.keys ∪ m'.keys),
    total_eq_sum (subset_union_right : m'.keys ⊆ m.keys ∪ m'.keys)]
  exact sum_congr rfl fun k _ => h k

/-- A total of weights that are nowhere greater. -/
theorem total_le {m' : FinMap K W}
    (h : ∀ k, m'.weightAt g k ≤ m.weightAt f k) : m'.total g ≤ m.total f := by
  rw [total_eq_sum (subset_union_left : m.keys ⊆ m.keys ∪ m'.keys),
    total_eq_sum (subset_union_right : m'.keys ⊆ m.keys ∪ m'.keys)]
  exact sum_le_sum fun k _ => h k

theorem total_mono {g : V → Nat} (h : ∀ v, f v ≤ g v) (m : FinMap K V) : m.total f ≤ m.total g := by
  refine sum_le_sum fun k _ => ?_
  unfold weightAt
  cases m.lookup k with
  | none => exact Nat.le_refl 0
  | some v => exact h v

/-- Clearing some keys takes their weights out of the total. -/
theorem total_of_cleared {D : Finset K}
    (h : ∀ k, m'.weightAt f k = if k ∈ D then 0 else m.weightAt f k) :
    m'.total f + ∑ k ∈ D, m.weightAt f k = m.total f := by
  have hD : D ⊆ D ∪ (m.keys ∪ m'.keys) := subset_union_left
  rw [total_eq_sum (subset_union_left.trans subset_union_right : m.keys ⊆ D ∪ (m.keys ∪ m'.keys)),
      total_eq_sum (subset_union_right.trans subset_union_right : m'.keys ⊆ D ∪ (m.keys ∪ m'.keys)),
      ← sum_sdiff hD, ← sum_sdiff hD (f := fun k => m.weightAt f k)]
  have hin : ∑ k ∈ D, m'.weightAt f k = 0 := sum_eq_zero fun k hk => by rw [h, if_pos hk]
  have hout : ∑ k ∈ (D ∪ (m.keys ∪ m'.keys)) \ D, m'.weightAt f k =
      ∑ k ∈ (D ∪ (m.keys ∪ m'.keys)) \ D, m.weightAt f k :=
    sum_congr rfl fun k hk => by rw [h, if_neg (mem_sdiff.1 hk).2]
  rw [hin, hout]
  rfl

theorem weightAt_insert (k k' : K) (v : V) (m : FinMap K V) :
    weightAt f (m.insert k v) k' = if k' = k then f v else m.weightAt f k' := by
  rw [weightAt, lookup_insert_ite]
  split <;> rfl

theorem weightAt_erase (k k' : K) (m : FinMap K V) :
    weightAt f (m.erase k) k' = if k' = k then 0 else m.weightAt f k' := by
  rw [weightAt, lookup_erase_ite]
  split <;> rfl

theorem total_insert (k : K) (v : V) (m : FinMap K V) :
    total f (m.insert k v) + m.weightAt f k = m.total f + f v := by
  have h : ∀ k', k' ≠ k → weightAt f (m.insert k v) k' = m.weightAt f k' :=
    fun k' hk' => by rw [weightAt_insert, if_neg hk']
  rw [total_of_weightAt_ne h, weightAt_insert, if_pos rfl]

theorem total_erase (k : K) (m : FinMap K V) :
    total f (m.erase k) + m.weightAt f k = m.total f := by
  have h : ∀ k', k' ≠ k → weightAt f (m.erase k) k' = m.weightAt f k' :=
    fun k' hk' => by rw [weightAt_erase, if_neg hk']
  rw [total_of_weightAt_ne h, weightAt_erase, if_pos rfl, Nat.add_zero]

/-! ### Entries written one after the other -/

/-- Write some entries, one after the other. -/
def insertAll (entries : List (K × V)) (m : FinMap K V) : FinMap K V :=
  entries.foldl (fun m e => m.insert e.1 e.2) m

theorem mem_of_lookup_insertAll {v : V}
    (h : (m.insertAll entries).lookup k = some v) : (k, v) ∈ entries ∨ m.lookup k = some v := by
  induction entries generalizing m with
  | nil => exact .inr h
  | cons e entries ih =>
    rcases ih h with hmem | hm
    · exact .inl (mem_cons_of_mem e hmem)
    rw [lookup_insert_ite] at hm
    split at hm
    · next hk =>
      obtain rfl : e.2 = v := some.inj hm
      exact .inl (hk ▸ mem_cons_self)
    · exact .inr hm

theorem lookup_insertAll (entries : List (K × V)) (m : FinMap K V) (k : K) :
    (m.insertAll entries).lookup k =
      ((entries.filter (·.1 = k)).getLast?.map (·.2)).or (m.lookup k) := by
  induction entries generalizing m with
  | nil => rfl
  | cons e entries ih =>
    rw [show m.insertAll (e :: entries) = insertAll entries (m.insert e.1 e.2) from rfl, ih,
      lookup_insert_ite, List.filter_cons]
    by_cases hk : e.1 = k
    · rw [if_pos (decide_eq_true hk), if_pos hk.symm, getLast?_cons]
      cases (entries.filter (·.1 = k)).getLast? <;> rfl
    · rw [if_neg (Ne.symm hk), if_neg (by simpa using hk)]

/-- A loop that changes the entry of each element's key, where a second change makes no
difference. -/
theorem lookup_foldl_at {α : Type*} {f : FinMap K V → α → FinMap K V} {g : α → K}
    {F : K → Option V → Option V} (hF : ∀ k v, F k (F k v) = F k v)
    (h : ∀ m a k, (f m a).lookup k = if k = g a then F k (m.lookup k) else m.lookup k)
    (l : List α) (m : FinMap K V) (k : K) :
    (l.foldl f m).lookup k = if k ∈ l.map g then F k (m.lookup k) else m.lookup k := by
  induction l generalizing m with
  | nil => rfl
  | cons a l ih =>
    rw [foldl_cons, ih, h]
    by_cases hk : k = g a <;> by_cases hl : k ∈ l.map g <;> simp [*]

/-- Write one value under some keys. -/
theorem lookup_insertAll_const (keys : List K) (v : V) (m : FinMap K V) (k : K) :
    (m.insertAll (keys.map (·, v))).lookup k = if k ∈ keys then some v else m.lookup k := by
  rw [insertAll, foldl_map, lookup_foldl_at (g := id) (F := fun _ _ => some v)
    (fun _ _ => rfl) fun m k' k => lookup_insert_ite k' k v m, List.map_id]

/-- Erase some keys, one after the other. -/
def eraseAll (keys : List K) (m : FinMap K V) : FinMap K V := keys.foldl (fun m k => m.erase k) m

theorem lookup_eraseAll (keys : List K) (m : FinMap K V) (k : K) :
    (m.eraseAll keys).lookup k = if k ∈ keys then none else m.lookup k := by
  rw [eraseAll, lookup_foldl_at (g := id) (F := fun _ _ => none) (fun _ _ => rfl)
    fun m k' k => lookup_erase_ite k' k m, List.map_id]

/-- Erase an entry, unless another value stands under its key. -/
def eraseEntry [DecidableEq V] (k : K) (v : V) (m : FinMap K V) : FinMap K V :=
  if m.lookup k = some v then m.erase k else m

theorem lookup_eraseEntry [DecidableEq V] (k : K) (v : V) (m : FinMap K V) (k' : K) :
    (m.eraseEntry k v).lookup k' = (m.lookup k').filter fun w => ¬(k' = k ∧ w = v) := by
  rw [eraseEntry]
  by_cases hk : k' = k
  · subst hk
    split
    · next h => simp [h, Finmap.lookup_erase, filter_some]
    next h =>
    cases hw : m.lookup k' with
    | none => rfl
    | some w =>
      have hne : w ≠ v := fun heq => h (heq ▸ hw)
      simp [hne, filter_some]
  · have hsame : (if m.lookup k = some v then m.erase k else m).lookup k' = m.lookup k' := by
      split
      · rw [lookup_erase_ite, if_neg hk]
      · rfl
    rw [hsame]
    cases m.lookup k' <;> simp [hk, filter_some]

/-- The weights that are lost when some entries are written: those of the entries that stood under
their keys by then. -/
def replaced (f : V → Nat) (m : FinMap K V) : List (K × V) → Nat
  | [] => 0
  | e :: entries => m.weightAt f e.1 + replaced f (m.insert e.1 e.2) entries

theorem total_insertAll (entries : List (K × V)) (m : FinMap K V) :
    total f (m.insertAll entries) + m.replaced f entries =
      m.total f + (entries.map fun e => f e.2).sum := by
  induction entries generalizing m with
  | nil => rfl
  | cons e entries ih =>
    have hrest : total f (insertAll (e :: entries) m) + replaced f (m.insert e.1 e.2) entries =
        total f (m.insert e.1 e.2) + (entries.map fun e => f e.2).sum := ih (m.insert e.1 e.2)
    have hhead := total_insert (f := f) e.1 e.2 m
    rw [replaced, List.map_cons, List.sum_cons]
    omega

/-- Nothing is lost when the keys are new and different. -/
theorem replaced_eq_zero (hnodup : (entries.map (·.1)).Nodup)
    (hnew : ∀ e ∈ entries, m.weightAt f e.1 = 0) : m.replaced f entries = 0 := by
  induction entries generalizing m with
  | nil => rfl
  | cons e entries ih =>
    rw [List.map_cons, List.nodup_cons] at hnodup
    rw [replaced, hnew e mem_cons_self, Nat.zero_add]
    refine ih hnodup.2 fun e' he' => ?_
    rw [weightAt_insert, if_neg]
    · exact hnew e' (mem_cons_of_mem _ he')
    · intro heq
      exact hnodup.1 (heq ▸ mem_map_of_mem he')

end FinMap
