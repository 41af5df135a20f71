import Dugite.Lib.FinMap

/-!
# Secondary indexes of a finite map

A secondary index files the keys of a map under a property of their values: `group key m g` is what
belongs under `g`. An index holds no empty group (`occupied`). `Files` says that an index of sets is
the one that the map gives, and `FilesList` the same of an index of lists without repetition; both
stay so when a new entry is filed, when an entry is taken out, and when a whole group is.
-/

namespace Grouping

open FinMap Finset

variable {K V G : Type*} [DecidableEq K] [DecidableEq G] {key : V → G} {m : FinMap K V} {k : K}
  {v : V} {g : G} {ks : List K}

/-! ## Groups -/

/-- The keys whose values belong under `g`. -/
def group (key : V → G) (m : FinMap K V) (g : G) : Finset K :=
  m.keys.filter fun k => (m.lookup k).any fun v => key v = g

theorem mem_group : k ∈ group key m g ↔ ∃ v, m.lookup k = some v ∧ key v = g := by
  rw [group, mem_filter, mem_keys]
  cases m.lookup k <;> simp

theorem group_insert (hnew : m.lookup k = none) (v : V) (g : G) :
    group key (Finmap.insert k v m) g =
      if key v = g then insert k (group key m g) else group key m g := by
  ext x
  have hold : x ∈ group key m g → x ≠ k := by
    rintro hx rfl
    obtain ⟨w, hw, -⟩ := mem_group.1 hx
    rw [hnew] at hw
    cases hw
  by_cases hx : x = k
  · subst hx
    have hnot : x ∉ group key m g := fun hmem => hold hmem rfl
    rw [mem_group, Finmap.lookup_insert]
    split
    · next hg => simp [hg]
    · next hg => simp [hg, hnot]
  · rw [mem_group, Finmap.lookup_insert_of_ne _ hx, ← mem_group]
    split
    · rw [mem_insert, or_iff_right hx]
    · rfl

theorem group_erase (k : K) (g : G) : group key (m.erase k) g = (group key m g).erase k := by
  ext x
  rw [mem_erase, mem_group, mem_group, lookup_erase_ite]
  by_cases hx : x = k
  · simp [hx]
  · simp [hx]

theorem group_eraseAll (ks : List K) (g : G) :
    group key (m.eraseAll ks) g = group key m g \ ks.toFinset := by
  ext x
  rw [mem_sdiff, List.mem_toFinset, mem_group, mem_group, lookup_eraseAll]
  by_cases hx : x ∈ ks
  · simp [hx]
  · simp [hx]

/-- A key stands in the group of its value alone. -/
theorem group_erase_of_ne (hk : m.lookup k = some v) (hne : g ≠ key v) :
    group key (m.erase k) g = group key m g := by
  rw [group_erase, erase_eq_of_notMem]
  intro hmem
  obtain ⟨w, hw, rfl⟩ := mem_group.1 hmem
  rw [hk] at hw
  cases hw
  exact hne rfl

/-- What an index holds for a group: nothing if the group is empty. -/
def occupied (s : Finset K) : Option (Finset K) := if s = ∅ then none else some s

/-! ## Indexes of sets -/

/-- File `k` under `g`. -/
def file (k : K) (g : G) (index : FinMap G (Finset K)) : FinMap G (Finset K) :=
  Finmap.insert g (insert k ((index.lookup g).getD ∅)) index

/-- Take `k` out from under `g`. -/
def unfile (k : K) (g : G) (index : FinMap G (Finset K)) : FinMap G (Finset K) :=
  let rest := ((index.lookup g).getD ∅).erase k
  if rest = ∅ then index.erase g else Finmap.insert g rest index

/-- The index is the one that the map gives. -/
def Files (key : V → G) (m : FinMap K V) (index : FinMap G (Finset K)) : Prop :=
  ∀ g, index.lookup g = occupied (group key m g)

namespace Files

variable {index : FinMap G (Finset K)} (h : Files key m index)
include h

theorem getD (g : G) : (index.lookup g).getD ∅ = group key m g := by
  rw [h g, occupied]
  split
  · next hempty => exact hempty.symm
  · rfl

theorem file (hnew : m.lookup k = none) (v : V) :
    Files key (Finmap.insert k v m) (file k (key v) index) := by
  intro g
  rw [Grouping.file, lookup_insert_ite, group_insert hnew, h.getD]
  by_cases hg : g = key v
  · subst hg
    rw [if_pos rfl, if_pos rfl, occupied, if_neg (insert_ne_empty _ _)]
  · rw [if_neg hg, if_neg (Ne.symm hg), h g]

theorem unfile (hk : m.lookup k = some v) : Files key (m.erase k) (unfile k (key v) index) := by
  intro g
  rw [Grouping.unfile, h.getD, ← group_erase]
  by_cases hg : g = key v
  · subst hg
    rw [occupied]
    split
    · exact Finmap.lookup_erase _ _
    · exact Finmap.lookup_insert _
  rw [group_erase_of_ne hk hg, ← h g]
  split
  · exact Finmap.lookup_erase_ne hg
  · exact Finmap.lookup_insert_of_ne _ hg

/-- A group is taken out as a whole. -/
theorem erase (hks : ks.toFinset = group key m g) : Files key (m.eraseAll ks) (index.erase g) := by
  intro g'
  rw [lookup_erase_ite, group_eraseAll, hks]
  split
  · next heq => rw [heq, Finset.sdiff_self, occupied, if_pos rfl]
  next hne =>
  rw [h g', sdiff_eq_self_of_disjoint]
  refine disjoint_left.2 fun x hx hx' => hne ?_
  obtain ⟨w, hw, rfl⟩ := mem_group.1 hx
  obtain ⟨w', hw', rfl⟩ := mem_group.1 hx'
  rw [hw] at hw'
  cases hw'
  rfl

end Files

/-! ## Indexes of lists -/

/-- File `k` under `g`, after what stands there. -/
def fileList (k : K) (g : G) (index : FinMap G (List K)) : FinMap G (List K) :=
  Finmap.insert g ((index.lookup g).getD [] ++ [k]) index

/-- Take `k` out from under `g`. -/
def unfileList (k : K) (g : G) (index : FinMap G (List K)) : FinMap G (List K) :=
  match index.lookup g with
  | none => index
  | some ks =>
    let rest := ks.filter fun x => x ≠ k
    if rest = [] then index.erase g else Finmap.insert g rest index

/-- The index of sets with the same members. -/
abbrev toSets (index : FinMap G (List K)) : FinMap G (Finset K) := index.mapValues List.toFinset

/-- The lists have no repetition and the members that the map gives. -/
structure FilesList (key : V → G) (m : FinMap K V) (index : FinMap G (List K)) : Prop where
  nodup : ∀ {g ks}, index.lookup g = some ks → ks.Nodup
  files : Files key m (toSets index)

theorem getD_toSets (index : FinMap G (List K)) (g : G) :
    ((toSets index).lookup g).getD ∅ = ((index.lookup g).getD []).toFinset := by
  rw [lookup_mapValues]
  cases index.lookup g <;> rfl

theorem toSets_unfileList (k : K) (g : G) (index : FinMap G (List K)) :
    toSets (unfileList k g index) = unfile k g (toSets index) := by
  rw [unfile, getD_toSets, unfileList]
  cases hg : index.lookup g with
  | none =>
    have hnone : (toSets index).lookup g = none := by rw [lookup_mapValues, hg]; rfl
    exact (erase_of_lookup_none hnone).symm
  | some ks =>
  have hrest : (ks.filter fun x => x ≠ k).toFinset = ks.toFinset.erase k := by
    ext x
    simp [and_comm]
  have hempty : (ks.filter fun x => x ≠ k) = [] ↔ ks.toFinset.erase k = ∅ := by
    rw [← hrest, List.toFinset_eq_empty_iff]
  dsimp only [Option.getD_some]
  split
  · next hnil =>
    rw [if_pos (hempty.1 hnil)]
    exact mapValues_erase _ _ _
  · next hnil =>
    rw [if_neg (mt hempty.2 hnil), ← hrest]
    exact mapValues_insert _ _ _ _

namespace FilesList

variable {index : FinMap G (List K)} (h : FilesList key m index)
include h

theorem toFinset_getD (g : G) : ((index.lookup g).getD []).toFinset = group key m g := by
  rw [← getD_toSets, h.files.getD]

theorem mem_iff {g : G} {k : K} :
    k ∈ (index.lookup g).getD [] ↔ ∃ v, m.lookup k = some v ∧ key v = g := by
  rw [← mem_group, ← h.toFinset_getD, List.mem_toFinset]

theorem fileList (hnew : m.lookup k = none) (v : V) :
    FilesList key (Finmap.insert k v m) (fileList k (key v) index) where
  nodup {g ks} hks := by
    rw [Grouping.fileList, lookup_insert_ite] at hks
    split at hks
    · next hg =>
      cases hks
      have hnot : k ∉ (index.lookup (key v)).getD [] := by
        intro hmem
        obtain ⟨w, hw, -⟩ := h.mem_iff.1 hmem
        rw [hnew] at hw
        cases hw
      have hold : ((index.lookup (key v)).getD []).Nodup := by
        cases hl : index.lookup (key v) with
        | none => exact List.nodup_nil
        | some l => exact h.nodup hl
      exact hold.append (List.nodup_singleton k) (by simpa using hnot)
    · exact h.nodup hks
  files := by
    rw [toSets, Grouping.fileList, mapValues_insert, List.toFinset_append, union_comm,
      ← getD_toSets]
    exact h.files.file hnew v

theorem unfileList (hk : m.lookup k = some v) :
    FilesList key (m.erase k) (unfileList k (key v) index) where
  nodup {g ks} hks := by
    rw [Grouping.unfileList] at hks
    cases hl : index.lookup (key v) with
    | none =>
      rw [hl] at hks
      exact h.nodup hks
    | some l =>
    rw [hl] at hks
    dsimp only at hks
    split at hks
    · rw [lookup_erase_ite] at hks
      split at hks
      · cases hks
      · exact h.nodup hks
    rw [lookup_insert_ite] at hks
    split at hks
    · cases hks
      exact (h.nodup hl).filter _
    · exact h.nodup hks
  files := by
    rw [toSets_unfileList]
    exact h.files.unfile hk

/-- A list is taken out as a whole. -/
theorem erase (hks : index.lookup g = some ks) : FilesList key (m.eraseAll ks) (index.erase g) where
  nodup {g' ks'} hks' := by
    rw [lookup_erase_ite] at hks'
    split at hks'
    · cases hks'
    · exact h.nodup hks'
  files := by
    have hgroup : ks.toFinset = group key m g := by
      rw [← h.toFinset_getD, hks]
      rfl
    rw [toSets, mapValues_erase]
    exact h.files.erase hgroup

end FilesList

end Grouping
