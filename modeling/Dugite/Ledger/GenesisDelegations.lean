import Dugite.Lib.Listing
import Dugite.Primitives.Bytes

/-!
# Adopting genesis delegations

A genesis key delegation waits in a queue under its maturity slot and its genesis key. Every block
adopts what has matured by its slot (`adopt_matured_genesis_delegs`, `eras/common.rs`), and of
several delegations of one key the latest. The loops run over hash maps, so that their orders are
parameters; neither they nor an earlier adoption make a difference.
-/

namespace Dugite

open Listing List FinMap

/-- A delegate and its VRF key. -/
abbrev Delegate := Hash28 × Hash32

abbrev FutureGenDelegs := FinMap (Nat × Hash28) Delegate

/-- Note a matured entry, unless a later one of its genesis key is noted. -/
def noteLatest (queue : FutureGenDelegs) (latest : FinMap Hash28 (Nat × Delegate))
    (key : Nat × Hash28) : FinMap Hash28 (Nat × Delegate) :=
  (queue.lookup key).elim latest fun d => latest.insert key.2
    ((latest.lookup key.2).elim (key.1, d) fun best => if key.1 > best.1 then (key.1, d) else best)

/-- Give each genesis key of the matured entries its latest delegation and take them out. -/
def adoptKeys (table' : Enumeration Hash28) (matured : List (Nat × Hash28))
    (s : FutureGenDelegs × FinMap Hash28 Delegate) : FutureGenDelegs × FinMap Hash28 Delegate :=
  let latest := matured.foldl (noteLatest s.1) ∅
  (s.1.eraseAll matured, (table'.list latest.keys).foldl (fun delegates g =>
    (latest.lookup g).elim delegates fun e => delegates.insert g e.2) s.2)

/-- Adopt the entries that have matured by `slot`; `table` and `table'` are the orders of the
loops. -/
def adoptMaturedGenesisDelegs (table : Enumeration (Nat × Hash28)) (table' : Enumeration Hash28)
    (slot : Nat) (s : FutureGenDelegs × FinMap Hash28 Delegate) :
    FutureGenDelegs × FinMap Hash28 Delegate :=
  if s.1.keys = ∅ then s else
  let matured := (table.list s.1.keys).filter (·.1 ≤ slot)
  if matured = [] then s else adoptKeys table' matured s

/-- The entry of `g` with the largest slot among the queue's entries at the keys in `p`. -/
def Latest (queue : FutureGenDelegs) (p : Nat × Hash28 → Prop) (g : Hash28)
    (latest : Option (Nat × Delegate)) : Prop :=
  (∀ e ∈ latest, p (e.1, g) ∧ queue.lookup (e.1, g) = some e.2) ∧
    ∀ n d, p (n, g) → queue.lookup (n, g) = some d → ∃ e ∈ latest, n ≤ e.1

variable {queue : FutureGenDelegs} {g : Hash28}

theorem Latest.unique {p : Nat × Hash28 → Prop} {x y : Option (Nat × Delegate)}
    (hx : Latest queue p g x) (hy : Latest queue p g y) : x = y := by
  have hle : ∀ {x y}, Latest queue p g x → Latest queue p g y → ∀ e ∈ x, ∃ e' ∈ y, e.1 ≤ e'.1 :=
    fun hx hy e he => hy.2 e.1 e.2 (hx.1 e he).1 (hx.1 e he).2
  cases x with
  | none =>
    cases y with
    | none => rfl
    | some e => simpa using hle hy hx e rfl
  | some e =>
    obtain ⟨e', rfl, hge⟩ := hle hx hy e rfl
    obtain ⟨_, ⟨⟩, hge'⟩ := hle hy hx e' rfl
    have hslot := le_antisymm hge hge'
    have hd := (hx.1 e rfl).2.symm.trans (hslot ▸ (hy.1 e' rfl).2)
    rw [Prod.ext hslot (Option.some.inj hd)]

/-- After an adoption at `a`, the latest entry up to `b` is the latest of the entries that are left,
or else the one adopted at `a`. -/
theorem Latest.or {queue' : FutureGenDelegs} {a b : Nat} {x x' : Option (Nat × Delegate)}
    (hab : a ≤ b) (hqueue : ∀ k, queue'.lookup k = if k.1 ≤ a then none else queue.lookup k)
    (hx : Latest queue (·.1 ≤ a) g x) (hx' : Latest queue' (·.1 ≤ b) g x') :
    Latest queue (·.1 ≤ b) g (x'.or x) := by
  have hleft : ∀ {n d}, ¬ n ≤ a → queue.lookup (n, g) = some d → queue'.lookup (n, g) = some d :=
    fun hna hd => (hqueue _).trans ((if_neg hna).trans hd)
  cases x' with
  | none =>
    refine ⟨fun e he => ⟨(hx.1 e he).1.trans hab, (hx.1 e he).2⟩, fun n d hn hd => ?_⟩
    refine hx.2 n d (by_contra fun hna => ?_) hd
    simpa using hx'.2 n d hn (hleft hna hd)
  | some e =>
    obtain ⟨hle, he⟩ := hx'.1 e rfl
    rw [hqueue] at he
    split at he
    · cases he
    next hea =>
    refine ⟨?_, fun n d hn hd => ⟨e, rfl, ?_⟩⟩
    · rintro _ ⟨⟩
      exact ⟨hle, he⟩
    · by_cases hna : n ≤ a
      · exact hna.trans (le_of_not_ge hea)
      · obtain ⟨_, ⟨⟩, hle'⟩ := hx'.2 n d hn (hleft hna hd)
        exact hle'

theorem latest_noteLatest {latest : FinMap Hash28 (Nat × Delegate)} {seen : List (Nat × Hash28)}
    {key : Nat × Hash28} (h : Latest queue (· ∈ seen) g (latest.lookup g)) :
    Latest queue (· ∈ seen ++ [key]) g ((noteLatest queue latest key).lookup g) := by
  obtain ⟨n, g'⟩ := key
  by_cases hg : g = g'
  · subst hg
    cases hl : latest.lookup g <;> cases hq : queue.lookup (n, g) <;>
      simp [Latest, noteLatest, hl, hq] at h ⊢
    all_goals grind
  · have hother : (noteLatest queue latest (n, g')).lookup g = latest.lookup g := by
      rw [noteLatest]
      cases queue.lookup (n, g')
      · rfl
      · exact (lookup_insert_ite _ _ _ _).trans (if_neg hg)
    rw [hother]
    simpa [Latest, hg] using h

theorem latest_foldl (keys : List (Nat × Hash28)) :
    Latest queue (· ∈ keys) g ((keys.foldl (noteLatest queue) ∅).lookup g) := by
  induction keys using reverseRecOn with
  | nil => simp [Latest]
  | append_singleton keys key ih =>
    rw [foldl_append]
    exact latest_noteLatest ih

/-- The adoption loop gives every noted key its delegation, in whatever order. -/
theorem lookup_adopt (table' : Enumeration Hash28) (latest : FinMap Hash28 (Nat × Delegate))
    (delegates : FinMap Hash28 Delegate) :
    ((table'.list latest.keys).foldl (fun delegates g =>
      (latest.lookup g).elim delegates fun e => delegates.insert g e.2) delegates).lookup g =
        ((latest.lookup g).map (·.2)).or (delegates.lookup g) := by
  have hstep : ∀ (m : FinMap Hash28 Delegate) (a k : Hash28), Finmap.lookup k
      ((latest.lookup a).elim m fun e => m.insert a e.2) =
        if k = a then ((latest.lookup k).map (·.2)).or (m.lookup k) else m.lookup k := by
    intro m a k
    cases hl : latest.lookup a <;> grind [lookup_insert_ite]
  rw [lookup_foldl_at (g := id) (fun k v => by cases latest.lookup k <;> rfl) hstep, map_id]
  cases hl : latest.lookup g with
  | none => simp
  | some e => exact if_pos (table'.mem_list.2 (FinMap.mem_keys.2 (by rw [hl]; rfl)))

/-- The state `s'` is `s` with what has matured by `slot` adopted: no such entry is left in the
queue, and each key has its latest delegation. -/
structure Adopted (slot : Nat) (s s' : FutureGenDelegs × FinMap Hash28 Delegate) : Prop where
  queue : ∀ k, s'.1.lookup k = if k.1 ≤ slot then none else s.1.lookup k
  delegates : ∀ g, ∃ latest, Latest s.1 (·.1 ≤ slot) g latest ∧
    s'.2.lookup g = (latest.map (·.2)).or (s.2.lookup g)

theorem adopted_adoptMatured (table : Enumeration (Nat × Hash28)) (table' : Enumeration Hash28)
    (slot : Nat) (s : FutureGenDelegs × FinMap Hash28 Delegate) :
    Adopted slot s (adoptMaturedGenesisDelegs table table' slot s) := by
  have hempty : ∀ {α : Type} (t : Enumeration α), t.list ∅ = [] := fun t =>
    eq_nil_iff_forall_not_mem.2 fun a ha => Finset.notMem_empty a (t.mem_list.1 ha)
  have hidle : adoptKeys table' [] s = s := by simp [adoptKeys, hempty, eraseAll]
  -- the early returns are taken where there is nothing to adopt
  have heq : adoptMaturedGenesisDelegs table table' slot s =
      adoptKeys table' ((table.list s.1.keys).filter (·.1 ≤ slot)) s := by
    rw [adoptMaturedGenesisDelegs]
    split
    · next hkeys => rw [hkeys, hempty, filter_nil, hidle]
    · dsimp only
      split
      · next hnil => rw [hnil, hidle]
      · rfl
  have hmatured : ∀ k, k ∈ (table.list s.1.keys).filter (·.1 ≤ slot) ↔
      k.1 ≤ slot ∧ ∃ d, s.1.lookup k = some d := fun k => by
    rw [mem_filter, table.mem_list, FinMap.mem_keys, decide_eq_true_iff, and_comm,
      Option.isSome_iff_exists]
  rw [heq]
  refine ⟨fun k => (lookup_eraseAll _ _ _).trans ?_, fun g => ⟨_, ?_, lookup_adopt table' _ s.2⟩⟩
  · by_cases hle : k.1 ≤ slot
    · cases hk : s.1.lookup k <;> grind
    · grind
  · have hlatest : Latest s.1 _ g _ := latest_foldl ((table.list s.1.keys).filter (·.1 ≤ slot))
    refine ⟨fun e he => ?_, fun n d hn hd => hlatest.2 n d ((hmatured _).2 ⟨hn, d, hd⟩) hd⟩
    obtain ⟨hmem, hlookup⟩ := hlatest.1 e he
    exact ⟨((hmatured _).1 hmem).1, hlookup⟩

/-- Adoption is exact and depends on no order: not on those of the hash maps, nor on how the slots
up to `b` are divided among the calls. -/
theorem adoption_order_independent (table table₁ table₂ : Enumeration (Nat × Hash28))
    (table' table₁' table₂' : Enumeration Hash28) (s : FutureGenDelegs × FinMap Hash28 Delegate)
    (b : Nat) :
    Adopted b s (adoptMaturedGenesisDelegs table table' b s) ∧
    ∀ a ≤ b, adoptMaturedGenesisDelegs table₂ table₂' b
      (adoptMaturedGenesisDelegs table₁ table₁' a s) =
        adoptMaturedGenesisDelegs table table' b s := by
  have h := adopted_adoptMatured table table' b s
  refine ⟨h, fun a hab => ?_⟩
  have h₁ := adopted_adoptMatured table₁ table₁' a s
  have h₂ := adopted_adoptMatured table₂ table₂' b (adoptMaturedGenesisDelegs table₁ table₁' a s)
  refine Prod.ext (Finmap.ext_lookup fun k => ?_) (Finmap.ext_lookup fun g => ?_)
  · rw [h₂.queue, h₁.queue, h.queue]
    split
    · rfl
    · exact if_neg (by omega)
  obtain ⟨x, hx, hlookup⟩ := h.delegates g
  obtain ⟨x₁, hx₁, hlookup₁⟩ := h₁.delegates g
  obtain ⟨x₂, hx₂, hlookup₂⟩ := h₂.delegates g
  rw [hlookup₂, hlookup₁, hlookup, hx.unique (hx₁.or hab h₁.queue hx₂)]
  cases x₂ <;> rfl

end Dugite
