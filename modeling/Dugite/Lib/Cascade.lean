import Dugite.Lib.FinMap

/-!
# Taking out an element with everything that hangs on it

A map from elements to lists of elements is read as edges. `cascade edges a` takes the edges of `a`
out, then those of its children, level by level, and returns what is left of the edges and the
elements met on the way. A list may name an element twice, or one that has no entry.

`cascade_spec`: what was met contains the children of `a` and of everything in it, and exactly the
entries of `a` and of what was met are gone.
-/

namespace Cascade

open List FinMap Finmap

variable {α : Type*} [DecidableEq α]

def children (edges : FinMap α (List α)) (a : α) : List α := (edges.lookup a).getD []

/-- Take the children of one element out and add them to the next level. -/
def take (s : FinMap α (List α) × List α) (a : α) : FinMap α (List α) × List α :=
  (s.1.erase a, s.2 ++ children s.1 a)

def level (edges : FinMap α (List α)) (bfs : List α) : FinMap α (List α) × List α :=
  bfs.foldl take (edges, [])

def collect : Nat → FinMap α (List α) → List α → List α → FinMap α (List α) × List α
  | 0, edges, _, met => (edges, met)
  | fuel + 1, edges, bfs, met =>
    if bfs.isEmpty then (edges, met)
    else collect fuel (level edges bfs).1 (level edges bfs).2 (met ++ bfs)

/-- The edges without those below `a`, and the elements below `a`. -/
def cascade (edges : FinMap α (List α)) (a : α) : FinMap α (List α) × List α :=
  collect (edges.size + 1) (edges.erase a) (children edges a) []

/-! ## One level -/

variable {edges : FinMap α (List α)} {bfs : List α}

theorem children_of_lookup {edges' : FinMap α (List α)} {a : α}
    (h : edges'.lookup a = edges.lookup a) : children edges' a = children edges a := by
  rw [children, children, h]

theorem isSome_of_mem_children {a c : α} (h : c ∈ children edges a) :
    (edges.lookup a).isSome = true := by
  unfold children at h
  cases hlookup : edges.lookup a with
  | none =>
    rw [hlookup] at h
    cases h
  | some _ => rfl

theorem mem_foldl_take {s : FinMap α (List α) × List α} {c : α} :
    c ∈ (bfs.foldl take s).2 ↔ c ∈ s.2 ∨ ∃ b ∈ bfs, c ∈ children s.1 b := by
  induction bfs generalizing s with
  | nil => simp
  | cons b bfs ih =>
    have hhead : c ∈ (take s b).2 ↔ c ∈ s.2 ∨ c ∈ children s.1 b := mem_append
    simp only [foldl_cons, ih, hhead, mem_cons, exists_eq_or_imp, ← or_assoc]
    -- A later element has the children it had, unless it is `b` again: those are in by now.
    refine ⟨Or.imp_right fun ⟨b', hb', hc⟩ => ⟨b', hb', ?_⟩, fun h => ?_⟩
    · by_cases heq : b' = b
      · rw [heq, take, children, lookup_erase] at hc
        cases hc
      · rwa [take, children_of_lookup (lookup_erase_ne heq)] at hc
    · rcases h with h | ⟨b', hb', hc⟩
      · exact .inl h
      by_cases heq : b' = b
      · exact .inl (.inr (heq ▸ hc))
      · refine .inr ⟨b', hb', ?_⟩
        rwa [take, children_of_lookup (lookup_erase_ne heq)]

theorem level_fst (edges : FinMap α (List α)) (bfs : List α) :
    (level edges bfs).1 = edges.eraseAll bfs := (foldl_hom Prod.fst fun _ _ => rfl).symm

theorem mem_level {c : α} : c ∈ (level edges bfs).2 ↔ ∃ b ∈ bfs, c ∈ children edges b := by
  rw [level, mem_foldl_take]
  simp

/-- A level with anything below it takes an entry out. -/
theorem size_level_lt (h : (level edges bfs).2 ≠ []) : (level edges bfs).1.size < edges.size := by
  obtain ⟨c, hc⟩ := exists_mem_of_ne_nil _ h
  obtain ⟨b, hb, hc⟩ := mem_level.1 hc
  have hkeys : ∀ k, k ∈ (level edges bfs).1.keys ↔ k ∉ bfs ∧ k ∈ edges.keys := by
    intro k
    rw [level_fst, FinMap.mem_keys, FinMap.mem_keys, FinMap.lookup_eraseAll]
    by_cases hk : k ∈ bfs <;> simp [hk]
  refine Finset.card_lt_card ((Finset.ssubset_iff_of_subset fun k hk => ((hkeys k).1 hk).2).2
    ⟨b, ?_, fun hk => ((hkeys b).1 hk).1 hb⟩)
  exact mem_keys.2 (isSome_of_mem_children hc)

/-! ## The walk -/

/-- What was met by a walk from the elements `bfs`. -/
structure Met (edges : FinMap α (List α)) (bfs new : List α) (left : FinMap α (List α)) : Prop where
  start : ∀ b ∈ bfs, b ∈ new
  closed : ∀ b ∈ new, ∀ c ∈ children edges b, c ∈ new
  left_eq : ∀ k, left.lookup k = if k ∈ new then none else edges.lookup k

theorem Met.of_level {left : FinMap α (List α)} {new : List α}
    (h : Met (level edges bfs).1 (level edges bfs).2 new left) : Met edges bfs (bfs ++ new) left where
  start b hb := mem_append_left new hb
  closed b hb c hc := by
    refine mem_append_right bfs ?_
    by_cases hmem : b ∈ bfs
    · exact h.start c (mem_level.2 ⟨b, hmem, hc⟩)
    · have hsame : children (level edges bfs).1 b = children edges b :=
        children_of_lookup (by rw [level_fst, lookup_eraseAll, if_neg hmem])
      exact h.closed b ((mem_append.1 hb).resolve_left hmem) c (hsame ▸ hc)
  left_eq k := by
    rw [h.left_eq, level_fst, lookup_eraseAll]
    by_cases hk : k ∈ bfs <;> by_cases hk' : k ∈ new <;> simp [hk, hk']

theorem collect_spec {fuel : Nat} (h : bfs = [] ∨ edges.size < fuel) (met : List α) :
    ∃ new, (collect fuel edges bfs met).2 = met ++ new ∧
      Met edges bfs new (collect fuel edges bfs met).1 := by
  induction fuel generalizing edges bfs met with
  | zero =>
    obtain rfl : bfs = [] := h.resolve_right (Nat.not_lt_zero _)
    exact ⟨[], (append_nil met).symm, nofun, nofun, fun _ => rfl⟩
  | succ fuel ih =>
    rw [collect]
    split
    · next hempty =>
      obtain rfl := List.isEmpty_iff.1 hempty
      exact ⟨[], (append_nil met).symm, nofun, nofun, fun _ => rfl⟩
    next hne =>
    have hsize := h.resolve_left fun h => hne (List.isEmpty_iff.2 h)
    have hless : (level edges bfs).2 = [] ∨ (level edges bfs).1.size < fuel := by
      by_cases hnil : (level edges bfs).2 = []
      · exact .inl hnil
      · exact .inr (Nat.lt_of_lt_of_le (size_level_lt hnil) (Nat.le_of_lt_succ hsize))
    obtain ⟨new, heq, hmet⟩ := ih hless (met ++ bfs)
    exact ⟨bfs ++ new, by rw [heq, append_assoc], hmet.of_level⟩

/-- What a cascade from `a` meets and what it leaves. -/
structure Taken (edges : FinMap α (List α)) (a : α) (r : FinMap α (List α) × List α) : Prop where
  closed : ∀ b, b = a ∨ b ∈ r.2 → ∀ c ∈ children edges b, c ∈ r.2
  left_eq : ∀ k, r.1.lookup k = if k = a ∨ k ∈ r.2 then none else edges.lookup k

theorem cascade_spec (edges : FinMap α (List α)) (a : α) : Taken edges a (cascade edges a) := by
  have hsize : size (edges.erase a) < edges.size + 1 := by
    refine Nat.lt_succ_of_le (Finset.card_le_card fun k hk => ?_)
    rw [Finmap.mem_keys, Finmap.mem_erase] at hk
    exact mem_keys.2 hk.2
  obtain ⟨new, heq, hmet⟩ : ∃ new, (cascade edges a).2 = [] ++ new ∧
      Met (edges.erase a) (children edges a) new (cascade edges a).1 :=
    collect_spec (.inr hsize) []
  refine ⟨fun b hb c hc => ?_, fun k => ?_⟩
  · rw [heq] at hb ⊢
    by_cases hba : b = a
    · exact hmet.start c (hba ▸ hc)
    · refine hmet.closed b (hb.resolve_left hba) c ?_
      rwa [children_of_lookup (lookup_erase_ne hba)]
  · rw [hmet.left_eq, heq, lookup_erase_ite]
    by_cases hk : k = a <;> by_cases hk' : k ∈ new <;> simp [hk, hk']

end Cascade
