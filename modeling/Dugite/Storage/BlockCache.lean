import Dugite.Lib.FinMap

/-!
# The block cache

The cache of pages (`dugite-lsm/src/cache.rs`) evicts by a clock: a vector holds the keys of the
map, and a hand walks over it, clears the reference bits that are set and evicts the first entry
whose bit is not. The last key then moves into the gap under the hand. For all that the vector keeps
the keys of the map, the hand stays within it, and `insert` comes to an end (`cache_consistent`).
-/

namespace Dugite.Lsm

open List FinMap Finset Function Finmap

structure CacheKey where
  runId : UInt64
  pageIndex : UInt32
deriving DecidableEq

structure CacheEntry (Page : Type) where
  page : Page
  referenced : Bool

structure BlockCache (Page : Type) where
  map : FinMap CacheKey (CacheEntry Page) := ∅
  keys : List CacheKey := []
  hand : Nat := 0
  capacity : Nat

/-- `Vec::swap_remove`: the last element takes the place of the removed one. -/
def swapRemove {α : Type*} (l : List α) (i : Nat) : List α := l.getLast?.elim [] (l.dropLast.set i)

namespace BlockCache

variable {Page : Type} {c : BlockCache Page} {key : CacheKey}

section
variable (c : BlockCache Page)

/-- Look up a page, and mark its entry as used. -/
def get (key : CacheKey) : BlockCache Page × Option Page :=
  match c.map.lookup key with
  | some entry =>
    ({ c with map := c.map.insert key { entry with referenced := true } }, some entry.page)
  | none => (c, none)

/-- Put `keys` for the old ones and take the hand back into their range. -/
def withKeys (keys : List CacheKey) : BlockCache Page :=
  { c with keys := keys, hand := if keys.isEmpty then 0 else c.hand % keys.length }

def invalidateRun (runId : UInt64) : BlockCache Page :=
  { c with map := c.map.retain fun k _ => k.runId ≠ runId }.withKeys
    (c.keys.filter (·.runId ≠ runId))

/-- Evict the entry of the key under the hand. -/
def evict (key : CacheKey) : BlockCache Page :=
  { c with map := c.map.erase key }.withKeys (swapRemove c.keys c.hand)

end

/-- What is left of the loop of `evict_one` with `n` turns to go; `none` is a hand out of range. -/
def sweep : Nat → BlockCache Page → Option (BlockCache Page)
  | 0, c => c.keys[c.hand]?.map c.evict
  | n + 1, c => c.keys[c.hand]?.bind fun key =>
    match c.map.lookup key with
    | some entry =>
      if entry.referenced then
        sweep n { c with
          map := c.map.insert key { entry with referenced := false }
          hand := (c.hand + 1) % c.keys.length }
      else some (c.evict key)
    -- a stale key
    | none => some (c.withKeys (swapRemove c.keys c.hand))

def evictOne (c : BlockCache Page) : Option (BlockCache Page) :=
  if c.keys.isEmpty then some c else sweep (c.keys.length * 2) c

/-- The loop of `insert` with at most `fuel` turns, and what comes after it. -/
def insertLoop (key : CacheKey) (page : Page) : Nat → BlockCache Page → Option (BlockCache Page)
  | 0, _ => none
  | fuel + 1, c =>
    if c.capacity ≤ c.map.size then c.evictOne.bind (insertLoop key page fuel)
    else some { c with keys := c.keys ++ [key], map := c.map.insert key ⟨page, true⟩ }

def insert (fuel : Nat) (c : BlockCache Page) (key : CacheKey) (page : Page) :
    Option (BlockCache Page) :=
  if c.capacity = 0 then some c
  else match c.map.lookup key with
    | some _ => some { c with map := c.map.insert key ⟨page, true⟩ }
    | none => insertLoop key page fuel c

inductive Call (Page : Type) where
  | get (key : CacheKey)
  | insert (key : CacheKey) (page : Page)
  | invalidateRun (runId : UInt64)

def call (fuel : Nat) (c : BlockCache Page) : Call Page → Option (BlockCache Page)
  | .get key => some (c.get key).1
  | .insert key page => c.insert fuel key page
  | .invalidateRun runId => some (c.invalidateRun runId)

/-- The page that was last inserted for each key. -/
def lastInserted (last : CacheKey → Option Page) : List (Call Page) → CacheKey → Option Page
  | [] => last
  | .insert key page :: calls => lastInserted (update last key (some page)) calls
  | _ :: calls => lastInserted last calls

/-! ## The invariant -/

structure Consistent (capacity : Nat) (last : CacheKey → Option Page) (c : BlockCache Page) :
    Prop where
  capacity_eq : c.capacity = capacity
  nodup : c.keys.Nodup
  keys_eq : c.keys.toFinset = c.map.keys
  hand : c.hand = 0 ∨ c.hand < c.keys.length
  size : c.map.size ≤ capacity
  page : ∀ {key entry}, c.map.lookup key = some entry → last key = some entry.page

theorem swapRemove_perm {α : Type*} {l : List α} {i : Nat} {a : α} (h : l[i]? = some a) :
    a :: swapRemove l i ~ l := by
  obtain ⟨hi, rfl⟩ := List.getElem?_eq_some_iff.1 h
  cases l using reverseRecOn with
  | nil => cases hi
  | append_singleton l last =>
    rw [swapRemove, getLast?_concat, Option.elim_some, dropLast_concat]
    refine .trans ?_ (perm_append_singleton last l).symm
    rcases Nat.lt_or_ge i l.length with hlt | hge
    · rw [getElem_append_left hlt]
      have hset := ((set_perm_cons_eraseIdx hlt last).cons l[i]).trans (.swap ..)
      exact hset.trans ((getElem_cons_eraseIdx_perm hlt).cons last)
    · rw [set_eq_of_length_le hge, getElem_append_right hge, getElem_singleton]

namespace Consistent

variable {capacity : Nat} {last : CacheKey → Option Page} (h : Consistent capacity last c)
include h

/-- An entry is written. -/
theorem page_insert (entry : CacheEntry Page) {k : CacheKey} {e : CacheEntry Page}
    (hk : (c.map.insert key entry).lookup k = some e) :
    update last key (some entry.page) k = some e.page := by
  rw [lookup_insert_ite] at hk
  split at hk
  · next heq =>
    cases hk
    rw [heq, update_self]
  · next hne => rw [update_of_ne hne, h.page hk]

theorem touch {old : CacheEntry Page} (hold : c.map.lookup key = some old)
    (entry : CacheEntry Page) : Consistent capacity (update last key (some entry.page))
      { c with map := c.map.insert key entry } := by
  have hkeys : Finmap.keys (c.map.insert key entry) = c.map.keys := by
    rw [keys_insert, insert_eq_of_mem]
    exact Finmap.mem_keys.2 (Finmap.mem_of_lookup_eq_some hold)
  exact { h with
    keys_eq := h.keys_eq.trans hkeys.symm
    size := (congrArg card hkeys).trans_le h.size
    page := h.page_insert entry }

/-- The reference bit of an entry is written. -/
theorem mark {entry : CacheEntry Page} (hentry : c.map.lookup key = some entry)
    (referenced : Bool) : Consistent capacity last
      { c with map := c.map.insert key { entry with referenced := referenced } } := by
  have htouched := h.touch hentry { entry with referenced := referenced }
  rwa [← h.page hentry, update_eq_self] at htouched

/-- Entries are removed. -/
theorem shrink {keys : List CacheKey} {map : FinMap CacheKey (CacheEntry Page)}
    (hnodup : keys.Nodup) (hkeys : keys.toFinset = map.keys)
    (hmap : ∀ {k entry}, map.lookup k = some entry → c.map.lookup k = some entry) :
    Consistent capacity last ({ c with map := map }.withKeys keys) where
  capacity_eq := h.capacity_eq
  nodup := hnodup
  keys_eq := hkeys
  hand := by
    rw [withKeys]
    cases keys with
    | nil => exact .inl rfl
    | cons k keys => exact .inr (Nat.mod_lt _ (Nat.succ_pos _))
  size := by
    refine (card_le_card fun k hk => ?_).trans h.size
    obtain ⟨entry, hentry⟩ := Option.isSome_iff_exists.1 (FinMap.mem_keys.1 hk)
    exact FinMap.mem_keys.2 (hmap hentry ▸ rfl)
  page hk := h.page (hmap hk)

theorem evict (hkey : c.keys[c.hand]? = some key) (hmem : key ∈ c.map.keys) :
    Consistent capacity last (c.evict key) ∧ (c.evict key).map.keys ⊂ c.map.keys := by
  have hperm := swapRemove_perm hkey
  obtain ⟨hnot, hnodup⟩ := nodup_cons.1 (hperm.nodup_iff.2 h.nodup)
  have hkeys : (c.map.erase key).keys = c.map.keys.erase key := keys_erase ..
  refine ⟨h.shrink hnodup ?_ fun {k _} hk => ?_, hkeys ▸ erase_ssubset hmem⟩
  · rw [hkeys, ← h.keys_eq, ← toFinset_eq_of_perm _ _ hperm, toFinset_cons,
      erase_insert (mt mem_toFinset.1 hnot)]
  · rw [lookup_erase_ite] at hk
    split at hk
    · cases hk
    · exact hk

/-- The hand is in range. -/
theorem under_hand (hne : c.keys ≠ []) : ∃ key ∈ c.map.keys, c.keys[c.hand]? = some key := by
  have hlt := h.hand.elim (·.trans_lt (length_pos_iff.2 hne)) id
  exact ⟨_, h.keys_eq ▸ mem_toFinset.2 (getElem_mem hlt), getElem?_eq_getElem hlt⟩

/-- The loop of `evict_one` ends with an eviction. -/
theorem sweep (n : Nat) (hne : c.keys ≠ []) :
    ∃ c', c.sweep n = some c' ∧ Consistent capacity last c' ∧ c'.map.keys ⊂ c.map.keys := by
  induction n generalizing c with
  | zero =>
    obtain ⟨key, hmem, hkey⟩ := h.under_hand hne
    exact ⟨_, by rw [BlockCache.sweep, hkey, Option.map_some], h.evict hkey hmem⟩
  | succ n ih =>
    obtain ⟨key, hmem, hkey⟩ := h.under_hand hne
    obtain ⟨entry, hentry⟩ := mem_iff.1 (mem_keys.1 hmem)
    rw [BlockCache.sweep, hkey, Option.bind_some, hentry]
    dsimp only
    split
    · have hmoved : Consistent capacity last { c with
          map := c.map.insert key { entry with referenced := false }
          hand := (c.hand + 1) % c.keys.length } :=
        { h.mark hentry false with hand := .inr (Nat.mod_lt _ (length_pos_iff.2 hne)) }
      obtain ⟨c', hsweep, hc', hless⟩ := ih hmoved hne
      rw [keys_insert, insert_eq_of_mem hmem] at hless
      exact ⟨c', hsweep, hc', hless⟩
    · exact ⟨_, rfl, h.evict hkey hmem⟩

theorem push (hkey : key ∉ c.map.keys) (hlt : c.map.size < capacity) (page : Page)
    (fuel : Nat) : ∃ c', insertLoop key page (fuel + 1) c = some c' ∧
      Consistent capacity (update last key (some page)) c' := by
  have hkey' : key ∉ c.keys := fun hk => hkey (h.keys_eq ▸ mem_toFinset.2 hk)
  rw [insertLoop, h.capacity_eq, if_neg (not_le.2 hlt)]
  refine ⟨_, rfl, rfl, nodup_append_comm.1 (nodup_cons.2 ⟨hkey', h.nodup⟩), ?_,
    h.hand.imp_right (·.trans_le (by simp)), ?_, h.page_insert ⟨page, true⟩⟩
  · rw [toFinset_append, h.keys_eq, keys_insert, union_comm]
    rfl
  · rwa [FinMap.size, keys_insert, card_insert_of_notMem hkey]

/-- A key that is not there finds room after one eviction at most. -/
theorem insert (key : CacheKey) (page : Page) (fuel : Nat) :
    ∃ c', c.insert (fuel + 2) key page = some c' ∧
      Consistent capacity (update last key (some page)) c' := by
  obtain rfl := h.capacity_eq
  have hsize := h.size
  rw [BlockCache.insert]
  split
  · next hzero =>
    refine ⟨c, rfl, { h with page := fun {k _} hk => ?_ }⟩
    have hpos := card_pos.2 ⟨k, mem_keys.2 (mem_of_lookup_eq_some hk)⟩
    exact absurd (hzero ▸ hsize) (not_le.2 hpos)
  next hcap =>
  cases hlookup : c.map.lookup key with
  | some entry => exact ⟨_, rfl, h.touch hlookup ⟨page, true⟩⟩
  | none =>
    have hkey := mt Finmap.mem_keys.1 (Finmap.lookup_eq_none.1 hlookup)
    rcases hsize.lt_or_eq with hlt | hfull
    · exact h.push hkey hlt page (fuel + 1)
    have hne : c.keys ≠ [] := by
      intro hnil
      have hkeys := h.keys_eq
      rw [hnil] at hkeys
      exact hcap (hfull ▸ card_eq_zero.2 hkeys.symm)
    obtain ⟨c', hsweep, hc', hless⟩ := h.sweep (c.keys.length * 2) hne
    have hroom : c'.map.size < c.capacity := hfull ▸ card_lt_card hless
    dsimp only
    rw [insertLoop, if_pos hfull.ge, evictOne, if_neg (mt List.isEmpty_iff.1 hne), hsweep]
    exact hc'.push (fun hk => hkey (hless.1 hk)) hroom page fuel

theorem get (key : CacheKey) : Consistent capacity last (c.get key).1 := by
  rw [BlockCache.get]
  split
  · next hentry => exact h.mark hentry true
  · exact h

theorem invalidateRun (runId : UInt64) : Consistent capacity last (c.invalidateRun runId) := by
  refine h.shrink (h.nodup.filter _) ?_ fun {k entry} hk => ?_
  · ext k
    have hmem := congrArg (k ∈ ·) h.keys_eq
    simp only [mem_toFinset, FinMap.mem_keys, lookup_retain] at hmem ⊢
    cases hk : c.map.lookup k <;> simp [hk, hmem, Option.filter_some]
  · rw [lookup_retain] at hk
    exact (Option.filter_eq_some_iff.1 hk).1

/-- Every call returns and keeps the invariant. -/
theorem run (fuel : Nat) (calls : List (Call Page)) :
    ∃ c', calls.foldlM (call (fuel + 2)) c = some c' ∧
      Consistent capacity (lastInserted last calls) c' := by
  induction calls generalizing c last with
  | nil => exact ⟨c, rfl, h⟩
  | cons call calls ih =>
    rw [foldlM_cons]
    cases call with
    | get key => exact ih (h.get key)
    | insert key page =>
      obtain ⟨d, hd, hinv⟩ := h.insert key page fuel
      rw [BlockCache.call, hd]
      exact ih hinv
    | invalidateRun runId => exact ih (h.invalidateRun runId)

end Consistent

/-- Whatever calls are made to a new cache: they return, no `insert` with more than two turns of its
loop, and the invariant holds after them; so a hit gives the page that was last inserted. -/
theorem cache_consistent (capacity fuel : Nat) (calls : List (Call Page)) :
    ∃ c, calls.foldlM (call (fuel + 2)) ({ capacity := capacity } : BlockCache Page) = some c ∧
      c.keys.Nodup ∧ c.keys.toFinset = c.map.keys ∧ (c.hand = 0 ∨ c.hand < c.keys.length) ∧
      c.map.size ≤ capacity ∧ ∀ key page, (c.get key).2 = some page →
        lastInserted (fun _ => none) calls key = some page := by
  have hnew : Consistent capacity (fun _ => none) ({ capacity := capacity } : BlockCache Page) :=
    ⟨rfl, nodup_nil, rfl, .inl rfl, Nat.zero_le _, fun h => by simp at h⟩
  obtain ⟨c, hc, h⟩ := hnew.run fuel calls
  refine ⟨c, hc, h.nodup, h.keys_eq, h.hand, h.size, fun key page hget => ?_⟩
  rw [BlockCache.get] at hget
  split at hget
  · next entry hentry => exact (h.page hentry).trans hget
  · cases hget

end BlockCache

end Dugite.Lsm
