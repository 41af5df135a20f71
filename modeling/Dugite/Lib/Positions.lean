import Mathlib.Data.List.NodupEquivFin
import Mathlib.Data.List.Perm.Basic
import Mathlib.Data.List.Sort

/-!
# Positions in sorted lists

Two ways of listing the same things can put them at different positions. `dedupAdjacent` drops the
repetitions of a sorted list, and moves everything after a repetition; a permutation of optional
marks that keeps every mark in its place moves none of them (`eq_of_perm_of_keeps`). Where two
orders agree on groups but not inside them, the marks that move are those of mixed groups
(`EarlyFirst.map_insertionSort_iff`).
-/

namespace Positions

open List Option

/-! ## Dropping repetitions -/

variable {i : Nat}

section Dedup
variable {α : Type*} [LinearOrder α]

/-- Keep one of each run of equal entries (`Vec::dedup`). -/
def dedupAdjacent : List α → List α
  | [] => []
  | [a] => [a]
  | a :: b :: l => if a = b then dedupAdjacent (b :: l) else a :: dedupAdjacent (b :: l)

variable {l : List α}

theorem mem_dedupAdjacent {x : α} : x ∈ dedupAdjacent l ↔ x ∈ l := by
  induction l using dedupAdjacent.induct with
  | case1 | case2 a => rfl
  | case3 a l ih =>
    rw [dedupAdjacent, if_pos rfl, ih]
    simp
  | case4 a b l hab ih =>
    rw [dedupAdjacent, if_neg hab, mem_cons, ih, mem_cons (a := x) (b := a)]

theorem head?_dedupAdjacent (a : α) (l : List α) : (dedupAdjacent (a :: l)).head? = some a := by
  induction l generalizing a with
  | nil => rfl
  | cons b l ih =>
    rw [dedupAdjacent]
    split
    · next hab => rw [ih, hab]
    · rfl

/-- A sorted list without repetitions is strictly sorted. -/
theorem pairwise_dedupAdjacent (h : l.Pairwise (· ≤ ·)) : (dedupAdjacent l).Pairwise (· < ·) := by
  induction l using dedupAdjacent.induct with
  | case1 => exact .nil
  | case2 a => exact pairwise_singleton _ a
  | case3 a l ih =>
    rw [dedupAdjacent, if_pos rfl]
    exact ih h.of_cons
  | case4 a b l hab ih =>
    rw [dedupAdjacent, if_neg hab]
    refine .cons (fun x hx => ?_) (ih h.of_cons)
    have hb : a < b := lt_of_le_of_ne ((pairwise_cons.1 h).1 b mem_cons_self) hab
    rcases mem_cons.1 (mem_dedupAdjacent.1 hx) with rfl | hx
    · exact hb
    · exact hb.trans_le ((pairwise_cons.1 h.of_cons).1 x hx)

/-- Nothing moves as long as nothing was repeated. -/
theorem getElem?_dedupAdjacent {p : Nat} (h : (l.take (p + 1)).Nodup) :
    (dedupAdjacent l)[p]? = l[p]? := by
  induction l generalizing p with
  | nil => rfl
  | cons a l ih =>
    cases p with
    | zero =>
      rw [← head?_eq_getElem?, head?_dedupAdjacent]
      rfl
    | succ p =>
    cases l with
    | nil => simp [dedupAdjacent]
    | cons b l =>
    have hnot := (nodup_cons.1 h).1
    have hab : a ≠ b := by
      rintro rfl
      exact hnot (by simp)
    rw [dedupAdjacent, if_neg hab, getElem?_cons_succ, getElem?_cons_succ]
    exact ih (nodup_cons.1 h).2

theorem exists_lt_of_getElem?_succ (h : l.Pairwise (· < ·)) {z : α}
    (hz : l[i + 1]? = some z) : ∃ y, l[i]? = some y ∧ y < z := by
  obtain ⟨hi, rfl⟩ := List.getElem?_eq_some_iff.1 hz
  have hi' : i < l.length := Nat.lt_of_succ_lt hi
  exact ⟨l[i], getElem?_eq_getElem hi',
    pairwise_iff_getElem.1 h i (i + 1) hi' hi (Nat.lt_succ_self i)⟩

/-- Dropping repetitions never moves a smaller entry to a position. -/
theorem le_of_getElem?_dedupAdjacent (h : l.Pairwise (· ≤ ·)) {w z : α}
    (hw : l[i]? = some w) (hz : (dedupAdjacent l)[i]? = some z) : w ≤ z := by
  induction l generalizing i z with
  | nil => simp at hw
  | cons a l ih =>
    cases l with
    | nil =>
      rw [dedupAdjacent, hw] at hz
      exact le_of_eq (Option.some.inj hz)
    | cons b l =>
    cases i with
    | zero =>
      obtain rfl : a = w := by simpa using hw
      rw [← head?_eq_getElem?, head?_dedupAdjacent] at hz
      exact le_of_eq (Option.some.inj hz)
    | succ i =>
    rw [dedupAdjacent] at hz
    split at hz
    · -- the list without repetitions is one step ahead
      obtain ⟨y, hy, hlt⟩ := exists_lt_of_getElem?_succ (pairwise_dedupAdjacent h.of_cons) hz
      exact (ih h.of_cons hw hy).trans hlt.le
    · exact ih h.of_cons hw hz

/-- After a repetition every position holds a larger entry than before. -/
theorem lt_of_getElem?_dedupAdjacent (h : l.Pairwise (· ≤ ·)) {p : Nat}
    (hdup : ¬(l.take (p + 1)).Nodup) {x z : α} (hx : l[p]? = some x)
    (hz : (dedupAdjacent l)[p]? = some z) : x < z := by
  induction l generalizing p with
  | nil => simp at hx
  | cons a l ih =>
    cases p with
    | zero => simp at hdup
    | succ p =>
    cases l with
    | nil => simp at hx
    | cons b l =>
    rw [dedupAdjacent] at hz
    split at hz
    · obtain ⟨y, hy, hlt⟩ := exists_lt_of_getElem?_succ (pairwise_dedupAdjacent h.of_cons) hz
      exact (le_of_getElem?_dedupAdjacent h.of_cons hx hy).trans_lt hlt
    next hab =>
    refine ih h.of_cons (fun hnodup => hdup ?_) hx hz
    -- the head is smaller than everything after it
    refine nodup_cons.2 ⟨fun hmem => ?_, hnodup⟩
    have hb : a < b := lt_of_le_of_ne ((pairwise_cons.1 h).1 b mem_cons_self) hab
    rcases mem_cons.1 (mem_of_mem_take hmem) with rfl | hmem
    · exact hab rfl
    · exact absurd ((pairwise_cons.1 h.of_cons).1 a hmem) (not_le.2 hb)

end Dedup

/-! ## Marks that keep their place -/

section Marks
variable {β : Type*}

/-- Every mark of `P` is in `Q`, at the same position. -/
def Keeps (P Q : List (Option β)) : Prop :=
  ∀ (i : Nat) (h : β), P[i]? = some (some h) → Q[i]? = some (some h)

variable {P Q : List (Option β)}

theorem Keeps.tail {x y : Option β} (h : Keeps (x :: P) (y :: Q)) :
    Keeps P Q := fun i b hi => by simpa using h (i + 1) b (by simpa using hi)

theorem Keeps.countP_le (h : Keeps P Q) : P.countP isSome ≤ Q.countP isSome := by
  induction P generalizing Q with
  | nil => simp
  | cons x P ih =>
    cases Q with
    | nil =>
      have hnone : ∀ y ∈ x :: P, y.isSome = false := by
        intro y hy
        obtain ⟨i, hi⟩ := mem_iff_getElem?.1 hy
        cases y with
        | none => rfl
        | some b => exact absurd (h i b hi) (by simp)
      rw [countP_eq_zero.2 fun y hy => by simp [hnone y hy]]
      exact Nat.zero_le _
    | cons y Q =>
      have hrest := ih h.tail
      cases x with
      | none =>
        simp only [countP_cons, isSome_none, Bool.false_eq_true, if_false]
        omega
      | some b =>
        have hy : y = some b := by simpa using h 0 b rfl
        simp only [hy, countP_cons, isSome_some, if_true]
        omega

/-- Marks that keep their place in a list with as many marks are all its marks. -/
theorem Keeps.eq_of_countP (h : Keeps P Q)
    (hlen : P.length = Q.length) (hcount : Q.countP isSome ≤ P.countP isSome) :
    P = Q := by
  induction P generalizing Q with
  | nil => exact (length_eq_zero_iff.1 hlen.symm).symm
  | cons x P ih =>
    cases Q with
    | nil => simp at hlen
    | cons y Q =>
    have hlen' : P.length = Q.length := by simpa using hlen
    have hle := h.tail.countP_le
    cases x with
    | none =>
      cases y with
      | none =>
        rw [ih h.tail hlen' (by simpa [countP_cons] using hcount)]
      | some b =>
        simp only [countP_cons, isSome_none, isSome_some, Bool.false_eq_true,
          if_true, if_false] at hcount
        omega
    | some b =>
      obtain rfl : y = some b := by simpa using h 0 b rfl
      rw [ih h.tail hlen' (by simpa [countP_cons] using hcount)]

/-- A permutation that keeps every mark in its place moves none. -/
theorem eq_of_perm_of_keeps (hperm : P.Perm Q) (h : Keeps P Q) : P = Q :=
  h.eq_of_countP hperm.length_eq (hperm.countP_eq _).ge

theorem getElem?_map_eq_some {α : Type*} {l : List α} {f : α → Option β} {b : β} :
    (l.map f)[i]? = some (some b) ↔ ∃ a, l[i]? = some a ∧ f a = some b := by
  simp only [getElem?_map, map_eq_some_iff]

end Marks

/-! ## Marks and repetitions -/

section MarkedDedup
variable {α β : Type*} [LinearOrder α] {l : List α} {mark : α → Option β}

/-- Dropping the repetitions of a sorted list keeps every mark in its place only when no entry up
to a marked one is repeated. -/
theorem nodup_take_of_keeps (hl : l.Pairwise (· ≤ ·))
    (hkeeps : Keeps (l.map mark) ((dedupAdjacent l).map mark)) {b : β}
    (hi : (l.map mark)[i]? = some (some b)) : (l.take (i + 1)).Nodup := by
  -- a mark that moves comes from a later marked position, which has moved as well
  induction hm : l.length - i using Nat.strong_induction_on generalizing i b with
  | _ m ih =>
    by_contra hdup
    obtain ⟨x, hx, -⟩ := getElem?_map_eq_some.1 hi
    obtain ⟨z, hz, hmark⟩ := getElem?_map_eq_some.1 (hkeeps i b hi)
    have hxz : x < z := lt_of_getElem?_dedupAdjacent hl hdup hx hz
    obtain ⟨q, hq⟩ := mem_iff_getElem?.1 (mem_dedupAdjacent.1 (mem_of_getElem? hz))
    obtain ⟨hqlen, rfl⟩ := List.getElem?_eq_some_iff.1 hq
    obtain ⟨hilen, rfl⟩ := List.getElem?_eq_some_iff.1 hx
    have hlt : i < q := by
      by_contra hle
      rcases Nat.lt_or_eq_of_le (Nat.le_of_not_lt hle) with hqi | rfl
      · exact absurd (pairwise_iff_getElem.1 hl q i hqlen hilen hqi) (not_le.2 hxz)
      · exact lt_irrefl _ hxz
    have hnodup := ih (l.length - q) (by omega) (getElem?_map_eq_some.2 ⟨_, hq, hmark⟩) rfl
    exact hdup (hnodup.sublist (take_sublist_take_left (by omega)))

/-- No entry up to a marked one is repeated if and only if nothing that is at most a marked entry
is repeated in the whole list. -/
theorem nodup_take_iff_duplicate (hl : l.Pairwise (· ≤ ·)) :
    (∀ i b, (l.map mark)[i]? = some (some b) → (l.take (i + 1)).Nodup) ↔
      ∀ a ∈ l, (mark a).isSome → ∀ c ≤ a, ¬l.Duplicate c := by
  constructor
  · intro hnodup a ha hmark c hca hdup
    obtain ⟨b, hb⟩ := isSome_iff_exists.1 hmark
    obtain ⟨p, q, hpq, hp, hq⟩ := duplicate_iff_exists_distinct_get.1 hdup
    obtain ⟨j, hj⟩ := mem_iff_getElem?.1 ha
    -- the second place of `c` is not after some place of `a`
    obtain ⟨i, hi, hle⟩ : ∃ i, l[i]? = some a ∧ q.1 ≤ i := by
      rcases hca.lt_or_eq with hlt | rfl
      · refine ⟨j, hj, not_lt.1 fun hjq => ?_⟩
        obtain ⟨hjlen, rfl⟩ := List.getElem?_eq_some_iff.1 hj
        rw [hq] at hlt
        exact absurd (pairwise_iff_getElem.1 hl j q.1 hjlen q.2 hjq) (not_le.2 hlt)
      · exact ⟨q.1, List.getElem?_eq_some_iff.2 ⟨q.2, hq.symm⟩, Nat.le_refl _⟩
    have hlen := (List.getElem?_eq_some_iff.1 hi).1
    refine nodup_iff_getElem?_ne_getElem?.1
      (hnodup i b (getElem?_map_eq_some.2 ⟨a, hi, hb⟩)) p.1 q.1 hpq
      (by rw [length_take]; omega) ?_
    rw [getElem?_take_of_lt (by omega), getElem?_take_of_lt (by omega),
      List.getElem?_eq_some_iff.2 ⟨p.2, hp.symm⟩, List.getElem?_eq_some_iff.2 ⟨q.2, hq.symm⟩]
  · intro hall i b hi
    obtain ⟨a, ha, hb⟩ := getElem?_map_eq_some.1 hi
    obtain ⟨hilen, rfl⟩ := List.getElem?_eq_some_iff.1 ha
    refine nodup_iff_forall_not_duplicate.2 fun c hdup => ?_
    refine hall _ (getElem_mem hilen) (by rw [hb]; rfl) c ?_ (hdup.mono_sublist (take_sublist _ _))
    obtain ⟨j, hjlen, rfl⟩ := mem_iff_getElem.1 hdup.mem
    rw [length_take] at hjlen
    rw [getElem_take]
    rcases Nat.lt_or_eq_of_le (by omega : j ≤ i) with hlt | rfl
    · exact pairwise_iff_getElem.1 hl j i _ hilen hlt
    · exact le_refl _

/-- When no entry up to a marked one is repeated, no mark comes from elsewhere. -/
theorem keeps_of_dedupAdjacent (hl : l.Pairwise (· ≤ ·))
    (h : ∀ (i : Nat) (b : β), (l.map mark)[i]? = some (some b) → (l.take (i + 1)).Nodup) :
    Keeps ((dedupAdjacent l).map mark) (l.map mark) := by
  intro i b hi
  obtain ⟨z, hz, hmark⟩ := getElem?_map_eq_some.1 hi
  obtain ⟨q, hq⟩ := mem_iff_getElem?.1 (mem_dedupAdjacent.1 (mem_of_getElem? hz))
  have hmarked := getElem?_map_eq_some.2 ⟨z, hq, hmark⟩
  have hsame := (getElem?_dedupAdjacent (h q b hmarked)).trans hq
  have hnodup : (dedupAdjacent l).Nodup := (pairwise_dedupAdjacent hl).imp fun hlt => ne_of_lt hlt
  obtain ⟨hilen, hiz⟩ := List.getElem?_eq_some_iff.1 hz
  obtain ⟨hqlen, hqz⟩ := List.getElem?_eq_some_iff.1 hsame
  obtain rfl : i = q := (hnodup.getElem_inj_iff).1 (hiz.trans hqz.symm)
  exact hmarked

end MarkedDedup

/-! ## Two orders of the same groups -/

section Groups
variable {α β γ : Type*} {l : List α}

theorem filter_append_filter_not {q : α → Bool}
    (h : l.Pairwise fun a b => q b = true → q a = true) : l.filter q ++ l.filter (fun a => !q a) = l := by
  induction l with
  | nil => rfl
  | cons a l ih =>
    obtain ⟨hhead, htail⟩ := pairwise_cons.1 h
    cases ha : q a with
    | true => rw [filter_cons_of_pos ha, filter_cons_of_neg (by simp [ha]), cons_append, ih htail]
    | false =>
      have hnone : ∀ b ∈ l, q b = false := fun b hb =>
        Bool.eq_false_iff.2 fun hqb => by rw [hhead b hb hqb] at ha; cases ha
      rw [filter_cons_of_neg (by simp [ha]), filter_cons_of_pos (by simp [ha]),
        filter_eq_nil_iff.2 fun b hb => by simp [hnone b hb], nil_append,
        filter_eq_self.2 fun b hb => by simp [hnone b hb]]

/-- Lists made of pieces of the same lengths are equal when the pieces are. -/
theorem flatMap_eq_iff {f f' : γ → List β} {gs : List γ}
    (hlen : ∀ g ∈ gs, (f g).length = (f' g).length) :
    gs.flatMap f = gs.flatMap f' ↔ ∀ g ∈ gs, f g = f' g := by
  induction gs with
  | nil => simp
  | cons g gs ih =>
    rw [flatMap_cons, flatMap_cons, forall_mem_cons, ← ih fun g hg => hlen g (mem_cons_of_mem _ hg)]
    constructor
    · exact fun h => append_inj h (hlen g mem_cons_self)
    · rintro ⟨hg, hgs⟩
      rw [hg, hgs]

theorem replicate_append_comm_iff {n : Nat} {marks : List (Option β)} :
    replicate n none ++ marks = marks ++ replicate n none ↔ n = 0 ∨ ∀ m ∈ marks, m = none := by
  constructor
  · intro h
    refine n.eq_zero_or_pos.imp_right fun hn => ?_
    obtain ⟨n, rfl⟩ := Nat.exists_eq_succ_of_ne_zero hn.ne'
    induction marks with
    | nil => exact fun _ h => nomatch h
    | cons m marks ih =>
      have hm : none = m := (cons.inj h).1
      subst hm
      rw [append_cons, ← replicate_succ', replicate_succ, cons_append, cons_append] at h
      exact forall_mem_cons.2 ⟨rfl, ih (cons.inj h).2⟩
  · rintro (rfl | h)
    · simp
    · rw [eq_replicate_iff.2 ⟨rfl, h⟩, replicate_append_replicate, replicate_append_replicate,
        Nat.add_comm]

end Groups

section Orders
variable {α β : Type*} {l : List α} {group : α → Nat} {late : α → Bool}

/-- A list in the order of the groups is made of them. -/
theorem flatMap_groups (hl : l.Pairwise fun a b => group a ≤ group b) (n : Nat) :
    (range n).flatMap (fun g => l.filter (group · = g)) = l.filter (group · < n) := by
  induction n with
  | zero => simp
  | succ n ih =>
    have hsplit := filter_append_filter_not (q := fun a => decide (group a < n))
      ((hl.filter (group · < n + 1)).imp fun hab hb => by
        simp only [decide_eq_true_eq] at hb ⊢
        omega)
    rw [range_succ, flatMap_append, ih, flatMap_singleton, ← hsplit, List.filter_filter,
      List.filter_filter]
    refine congrArg₂ (· ++ ·) (filter_congr fun a _ => ?_) (filter_congr fun a _ => ?_) <;>
    · rw [Bool.eq_iff_iff]
      simp only [Bool.and_eq_true, Bool.not_eq_true', decide_eq_true_eq, decide_eq_false_iff_not]
      omega

/-- What comes first in a group. -/
def earlyOf (l : List α) (group : α → Nat) (late : α → Bool) (g : Nat) : List α :=
  (l.filter (group · = g)).filter fun a => !late a

/-- What comes last in a group. -/
def lateOf (l : List α) (group : α → Nat) (late : α → Bool) (g : Nat) : List α :=
  (l.filter (group · = g)).filter late

variable {a : α} {g n : Nat}

theorem mem_earlyOf : a ∈ earlyOf l group late g ↔ a ∈ l ∧ group a = g ∧ late a = false := by
  simp [earlyOf, and_assoc, and_comm]

theorem mem_lateOf : a ∈ lateOf l group late g ↔ a ∈ l ∧ group a = g ∧ late a = true := by
  simp [lateOf, and_assoc, and_comm]

variable {r : α → α → Prop}

/-- The groups one after the other, and in each what is late comes last. -/
def EarlyFirst (r : α → α → Prop) (group : α → Nat) (late : α → Bool) (l : List α) : Prop :=
  l.Pairwise fun a b => group a < group b ∨ group a = group b ∧
    (late a = true → late b = true) ∧ (late a = late b → r a b)

theorem EarlyFirst.eq_flatMap (hl : EarlyFirst r group late l) (hn : ∀ a ∈ l, group a < n) :
    l = (range n).flatMap fun g => earlyOf l group late g ++ lateOf l group late g := by
  have hgroups := flatMap_groups (hl.imp (S := fun a b => group a ≤ group b) fun hab => by omega) n
  rw [filter_eq_self.2 fun a ha => decide_eq_true (hn a ha)] at hgroups
  refine hgroups.symm.trans (flatMap_congr fun g _ => ?_)
  have hsplit := filter_append_filter_not (l := l.filter (group · = g)) (q := fun a => !late a)
    ((hl.filter _).imp_of_mem fun {a b} ha hb hab hqb => ?_)
  · simpa [earlyOf, lateOf] using hsplit.symm
  · rw [mem_filter, decide_eq_true_eq] at ha hb
    rcases hab with hlt | ⟨-, hlate, -⟩
    · omega
    · cases hsa : late a with
      | false => rfl
      | true =>
        rw [hlate hsa] at hqb
        exact hqb

variable [DecidableRel r] [Std.Total r] [IsTrans α r]

/-- Sorting by an order that puts what is late first in its group. -/
theorem EarlyFirst.insertionSort_eq (hl : EarlyFirst r group late l) (hn : ∀ a ∈ l, group a < n)
    (hr : ∀ a b, group a < group b ∨ group a = group b ∧ late a = true ∧ late b = false → r a b)
    (hanti : ∀ a b, r a b → r b a → a = b) : l.insertionSort r =
      (range n).flatMap fun g => lateOf l group late g ++ earlyOf l group late g := by
  have hsame : ∀ {q : α → Bool} {g}, ((l.filter (group · = g)).filter q).Pairwise fun a b =>
      late a = late b → r a b := by
    intro q g
    refine ((hl.filter _).imp_of_mem fun {a b} ha hb hab => ?_).filter _
    rw [mem_filter, decide_eq_true_eq] at ha hb
    rcases hab with hlt | ⟨-, -, hsame⟩
    · omega
    · exact hsame
  refine Perm.eq_of_pairwise (fun a b _ _ => hanti a b) (pairwise_insertionSort r l) ?_ ?_
  · rw [pairwise_flatMap]
    refine ⟨fun g _ => pairwise_append.2 ⟨?_, ?_, fun a ha b hb => ?_⟩,
      pairwise_lt_range.imp fun hlt a ha b hb => hr a b (.inl ?_)⟩
    · refine hsame.imp_of_mem fun {a b} ha hb hab => hab ?_
      rw [(mem_lateOf.1 ha).2.2, (mem_lateOf.1 hb).2.2]
    · refine hsame.imp_of_mem fun {a b} ha hb hab => hab ?_
      rw [(mem_earlyOf.1 ha).2.2, (mem_earlyOf.1 hb).2.2]
    · obtain ⟨-, rfl, hlate⟩ := mem_lateOf.1 ha
      obtain ⟨-, hg, hearly⟩ := mem_earlyOf.1 hb
      exact hr a b (.inr ⟨hg.symm, hlate, hearly⟩)
    · rw [mem_append, mem_lateOf, mem_earlyOf] at ha hb
      grind
  · refine (perm_insertionSort r l).trans ?_
    conv_lhs => rw [hl.eq_flatMap hn]
    exact Perm.flatMap_left _ fun g _ => perm_append_comm

/-- When sorting puts what is late first in its group, and nothing else is marked, the marks keep
their places exactly if everything in a group with a mark is late. -/
theorem EarlyFirst.map_insertionSort_iff {mark : α → Option β} (hl : EarlyFirst r group late l)
    (hn : ∀ a ∈ l, group a < n)
    (hr : ∀ a b, group a < group b ∨ group a = group b ∧ late a = true ∧ late b = false → r a b)
    (hanti : ∀ a b, r a b → r b a → a = b) (hmark : ∀ a, late a = false → mark a = none) :
    l.map mark = (l.insertionSort r).map mark ↔
      ∀ a ∈ l, (mark a).isSome → ∀ b ∈ l, group b = group a → late b = true := by
  have hnone : ∀ g, (earlyOf l group late g).map mark =
      replicate (earlyOf l group late g).length none := fun g => by
    rw [← length_map (f := mark), eq_replicate_iff]
    refine ⟨rfl, fun m hm => ?_⟩
    obtain ⟨a, ha, rfl⟩ := mem_map.1 hm
    exact hmark a (mem_earlyOf.1 ha).2.2
  have hlist := congrArg (map mark) (hl.eq_flatMap hn)
  rw [map_flatMap] at hlist
  rw [hl.insertionSort_eq hn hr hanti, map_flatMap, hlist, flatMap_eq_iff fun g _ => by
    simp [Nat.add_comm]]
  simp only [map_append, hnone, replicate_append_comm_iff, length_eq_zero_iff, mem_range]
  constructor
  · intro h a ha hsome b hb hgroup
    by_contra hearly
    rcases h (group a) (hn a ha) with hnil | hall
    · have : b ∈ earlyOf l group late (group a) :=
        mem_earlyOf.2 ⟨hb, hgroup, Bool.eq_false_iff.2 hearly⟩
      rw [hnil] at this
      cases this
    · have hlate : late a = true := by
        by_contra hs
        rw [hmark a (Bool.eq_false_iff.2 hs)] at hsome
        cases hsome
      rw [hall _ (mem_map_of_mem (mem_lateOf.2 ⟨ha, rfl, hlate⟩))] at hsome
      cases hsome
  · intro h g _
    refine or_iff_not_imp_right.2 fun hsome => eq_nil_iff_forall_not_mem.2 fun b hb => ?_
    obtain ⟨m, hm⟩ := not_forall.1 hsome
    obtain ⟨hm, hne⟩ := Classical.not_imp.1 hm
    obtain ⟨a, hlate, rfl⟩ := mem_map.1 hm
    obtain ⟨ha, rfl, -⟩ := mem_lateOf.1 hlate
    obtain ⟨hb, hgroup, hearly⟩ := mem_earlyOf.1 hb
    rw [h a ha (Option.isSome_iff_ne_none.2 hne) b hb hgroup] at hearly
    cases hearly

end Orders

end Positions
