import Dugite.Plutus.Budget
import Mathlib.Data.Nat.Size

/-!
# Traversals of `Data`

A script can build a `Data` value so deep that recursing into it would overflow the native stack, so
comparing, cloning and measuring keep a stack of what is still to be visited. `Data.total` is the
recursive definition: the sum of a weight over all nodes. It says what the loops of the costing
compute, until their sums saturate, and it makes them and the comparison end. Cloning is a machine
with two stacks (`cloneStep`).

The top of a stack is the head of the list; what is pushed in turn ends up there in reverse.
-/

namespace Dugite.Uplc

open Simulation List Int

namespace Data

/-- The values right below a node; in a map each key comes before its value. -/
def children : Data → List Data
  | constr _ args => args
  | map entries => entries.flatMap fun e => [e.1, e.2]
  | list elements => elements
  | i _ | b _ => []

theorem sizeOf_lt_of_mem_children {c d : Data} (h : c ∈ d.children) : sizeOf c < sizeOf d := by
  cases d with
  | constr tag args =>
    have : sizeOf c < sizeOf args := sizeOf_lt_of_mem h
    rw [constr.sizeOf_spec]
    omega
  | map entries =>
    obtain ⟨⟨k, v⟩, he, hc⟩ := mem_flatMap.1 h
    have := sizeOf_lt_of_mem he
    rw [Prod.mk.sizeOf_spec] at this
    rw [map.sizeOf_spec]
    obtain rfl | rfl : c = k ∨ c = v := by simpa using hc
    · omega
    · omega
  | list elements =>
    have : sizeOf c < sizeOf elements := sizeOf_lt_of_mem h
    rw [list.sizeOf_spec]
    omega
  | i n | b bytes => cases h

/-- The sum of `w` over all nodes. -/
def total (w : Data → Nat) (d : Data) : Nat :=
  w d + (d.children.attach.map fun c => total w c.1).sum
termination_by sizeOf d
decreasing_by exact sizeOf_lt_of_mem_children c.2

theorem total_eq (w : Data → Nat) (d : Data) :
    d.total w = w d + (d.children.map (total w)).sum := by
  rw [total, attach_map_val]

theorem total_mono {w w' : Data → Nat} (h : ∀ d, w d ≤ w' d) (d : Data) : d.total w ≤ d.total w' := by
  rw [total_eq, total_eq]
  exact Nat.add_le_add (h d) (sum_le_sum fun c hc => total_mono h c)
termination_by sizeOf d
decreasing_by exact sizeOf_lt_of_mem_children hc

theorem sum_push (w : Data → Nat) (d : Data) (stack : List Data) :
    ((d.children.reverse ++ stack).map (total w)).sum + w d = ((d :: stack).map (total w)).sum := by
  simp only [map_append, map_reverse, sum_append, sum_reverse, map_cons, sum_cons, total_eq w d]
  omega

/-! ## Comparing -/

/-- What the loop does with two values: `none` ends it with `false`, the pairs are pushed. -/
def comparePair : Data → Data → Option (List (Data × Data))
  | constr ta fa, constr tb fb =>
    if ta ≠ tb ∨ fa.length ≠ fb.length then none else some (fa.zip fb)
  | map ea, map eb =>
    if ea.length ≠ eb.length then none
    else some ((ea.zip eb).flatMap fun e => [(e.1.1, e.2.1), (e.1.2, e.2.2)])
  | list la, list lb => if la.length ≠ lb.length then none else some (la.zip lb)
  | i ia, i ib => if ia ≠ ib then none else some []
  | b ba, b bb => if ba ≠ bb then none else some []
  | _, _ => none

theorem zip_all_eq_iff {α : Type*} {l m : List α} (h : l.length = m.length) :
    (∀ p ∈ l.zip m, p.1 = p.2) ↔ l = m := by
  rw [← forall₂_eq_eq_eq (α := α), forall₂_iff_zip]
  exact ⟨fun hall => ⟨h, fun hp => hall _ hp⟩, fun hall p hp => hall.2 hp⟩

/-- The loop goes on exactly below nodes that differ at most in their children. -/
theorem comparePair_spec (x y : Data) : (comparePair x y = none ∧ x ≠ y) ∨
      ∃ pairs, comparePair x y = some pairs ∧ pairs.map Prod.fst = x.children ∧
        ((∀ p ∈ pairs, p.1 = p.2) ↔ x = y) := by
  cases x <;> cases y
  case constr.constr ta fa tb fb =>
    by_cases h : ta = tb ∧ fa.length = fb.length
    · obtain ⟨rfl, hlen⟩ := h
      refine .inr ⟨fa.zip fb, if_neg (by simp [hlen]), map_fst_zip hlen.le, ?_⟩
      rw [zip_all_eq_iff hlen, constr.injEq, and_iff_right rfl]
    · refine .inl ⟨if_pos (by tauto), ?_⟩
      rintro ⟨⟩
      exact h ⟨rfl, rfl⟩
  case map.map ea eb =>
    by_cases hlen : ea.length = eb.length
    · refine .inr ⟨_, if_neg (not_not_intro hlen), ?_, ?_⟩
      · rw [map_flatMap]
        conv_rhs => rw [children, ← map_fst_zip hlen.le, flatMap_map]
        rfl
      · rw [map.injEq, ← zip_all_eq_iff hlen, forall_mem_flatMap]
        refine forall₂_congr fun e _ => ?_
        rw [forall_mem_cons, forall_mem_singleton, Prod.ext_iff]
    · exact .inl ⟨if_pos hlen, fun h => hlen (congrArg length (map.inj h))⟩
  case list.list la lb =>
    by_cases hlen : la.length = lb.length
    · refine .inr ⟨la.zip lb, if_neg (not_not_intro hlen), map_fst_zip hlen.le, ?_⟩
      rw [zip_all_eq_iff hlen, list.injEq]
    · exact .inl ⟨if_pos hlen, fun h => hlen (congrArg length (list.inj h))⟩
  case i.i ia ib => by_cases h : ia = ib <;> simp [comparePair, children, h]
  case b.b ba bb => by_cases h : ba = bb <;> simp [comparePair, children, h]
  all_goals exact .inl ⟨rfl, nofun⟩

/-- `PartialEq::eq` on a stack of pairs. -/
def eqLoop : List (Data × Data) → Bool
  | [] => true
  | (x, y) :: stack =>
    match _h : comparePair x y with
    | none => false
    | some pairs => eqLoop (pairs.reverse ++ stack)
termination_by stack => ((stack.map Prod.fst).map (total fun _ => 1)).sum
decreasing_by
  obtain ⟨hnone, -⟩ | ⟨_, hpairs, hfst, -⟩ := comparePair_spec x y
  · cases hnone.symm.trans _h
  · obtain rfl := Option.some.inj (_h.symm.trans hpairs)
    rw [map_append, map_reverse, hfst]
    exact Nat.lt_of_lt_of_eq (Nat.lt_succ_self _) (sum_push (fun _ => 1) x _)

def eq (self other : Data) : Bool := eqLoop [(self, other)]

theorem eqLoop_iff (stack : List (Data × Data)) : eqLoop stack = true ↔ ∀ p ∈ stack, p.1 = p.2 := by
  fun_induction eqLoop stack with
  | case1 => simp
  | case2 x y stack h =>
    obtain ⟨-, hne⟩ | ⟨_, hpairs, -⟩ := comparePair_spec x y
    · simp [hne]
    · cases hpairs.symm.trans h
  | case3 x y stack pairs h ih =>
    obtain ⟨hnone, -⟩ | ⟨_, hpairs, -, heq⟩ := comparePair_spec x y
    · cases hnone.symm.trans h
    · obtain rfl := Option.some.inj (h.symm.trans hpairs)
      simp only [ih, forall_mem_append, mem_reverse, heq, forall_mem_cons]

/-! ## Measuring -/

/-- The loop of `data_node_count` and `size_of_data`. -/
def sumLoop (weigh : Int → Data → Int) (sum : Int) : List Data → Int
  | [] => sum
  | node :: stack => sumLoop weigh (weigh sum node) (node.children.reverse ++ stack)
termination_by stack => (stack.map (total fun _ => 1)).sum
decreasing_by exact Nat.lt_of_lt_of_eq (Nat.lt_succ_self _) (sum_push (fun _ => 1) node stack)

def dataNodeCount (d : Data) : Int := sumLoop (fun sum _ => satAddI64 sum 1) 0 [d]

/-- `BigInt::bits` counts the bits of the magnitude. -/
def memoryUsageInteger (n : Int) : Int :=
  if n = 0 then 1
  else
    let bits : Int := n.natAbs.size
    if bits = 0 then 1 else (bits - 1).tdiv 64 + 1

def sizeOfBytestring (bs : Bytes) : Int :=
  let len : Int := bs.length
  (len - 1).tdiv 8 + 1

def sizeOfData (d : Data) : Int :=
  sumLoop (fun sum node =>
    let sum := satAddI64 sum 4
    match node with
    | i n => satAddI64 sum (memoryUsageInteger n)
    | b bytes => satAddI64 sum (sizeOfBytestring bytes)
    | _ => sum) 0 [d]

/-- What a node contributes to the memory size. -/
def nodeSize : Data → Nat
  | i n => 4 + (n.natAbs.log2 / 64 + 1)
  | b bytes => 4 + ((bytes.length - 1) / 8 + 1)
  | _ => 4

theorem memoryUsageInteger_eq (n : Int) : memoryUsageInteger n = ↑(n.natAbs.log2 / 64 + 1) := by
  rw [memoryUsageInteger]
  split_ifs with hn
  · simp [hn]
  · have hsize : n.natAbs.size = n.natAbs.log2 + 1 := by
      refine eq_of_forall_ge_iff fun k => ?_
      rw [Nat.size_le, Nat.succ_le_iff, Nat.log2_lt (natAbs_ne_zero.2 hn)]
    rw [hsize, if_neg (by omega), tdiv_eq_ediv_of_nonneg (by omega)]
    omega

theorem sizeOfBytestring_eq (bs : Bytes) : sizeOfBytestring bs = ↑((bs.length - 1) / 8 + 1) := by
  cases bs with
  | nil => rfl
  | cons byte bs =>
    rw [sizeOfBytestring, tdiv_eq_ediv_of_nonneg (by grind)]
    grind

theorem satAddI64_min {a b : Int} (ha : 0 ≤ a) (hb : 0 ≤ b) :
    satAddI64 (min a i64Max) b = min (a + b) i64Max := by
  rw [satAddI64, i64Max]
  omega

section
variable {weigh : Int → Data → Int} {w : Data → Nat}
  (h : ∀ a, 0 ≤ a → ∀ node, weigh (min a i64Max) node = min (a + w node) i64Max)
include h

theorem sumLoop_eq {a : Int} (ha : 0 ≤ a) (stack : List Data) :
    sumLoop weigh (min a i64Max) stack = min (a + (stack.map (total w)).sum) i64Max := by
  generalize hsum : min a i64Max = sum
  fun_induction sumLoop weigh sum stack generalizing a with
  | case1 sum => rw [← hsum, map_nil, sum_nil, Nat.cast_zero, add_zero]
  | case2 sum node stack ih =>
    rw [ih (add_nonneg ha (natCast_nonneg _)) (by rw [← hsum, h a ha]), ← sum_push,
      Nat.cast_add, add_assoc, Int.add_comm (w node)]

/-- The loops sum up the weights of the nodes, up to the largest `i64`. -/
theorem sumLoop_eq_total (d : Data) : sumLoop weigh 0 [d] = min (d.total w : Int) i64Max := by
  simpa [i64Max] using sumLoop_eq h le_rfl [d]

end

theorem dataNodeCount_eq (d : Data) :
    d.dataNodeCount = min ((d.total fun _ => 1 : Nat) : Int) i64Max :=
  sumLoop_eq_total (fun _ ha _ => satAddI64_min ha Int.one_nonneg) d

theorem sizeOfData_eq (d : Data) : d.sizeOfData = min (d.total nodeSize : Int) i64Max := by
  refine sumLoop_eq_total (fun a ha node => ?_) d
  have hnode : satAddI64 (min a i64Max) 4 = min (a + 4) i64Max := satAddI64_min ha (by decide)
  have hleaf (k : Nat) :
      satAddI64 (satAddI64 (min a i64Max) 4) k = min (a + (4 + k : Nat)) i64Max := by
    rw [hnode, satAddI64_min (by omega) (natCast_nonneg k), add_assoc]
    rfl
  cases node with
  | i n => exact (congrArg _ (memoryUsageInteger_eq n)).trans (hleaf _)
  | b bytes => exact (congrArg _ (sizeOfBytestring_eq bytes)).trans (hleaf _)
  | constr | map | list => exact hnode

end Data

/-! ## Cloning -/

inductive CloneTask where
  | descend (d : Data)
  | buildConstr (tag : Int) (n : Nat)
  | buildList (n : Nat)
  | buildMap (n : Nat)

/-- `out.split_off(out.len() - n)`: what stays, and the last `n`. -/
def splitOff (n : Nat) (out : List Data) : Option (List Data × List Data) :=
  if n ≤ out.length then some (out.splitAt (out.length - n)) else none

def pairUp : List Data → List (Data × Data)
  | k :: v :: it => (k, v) :: pairUp it
  | _ => []

/-- The tasks that a task pushes, the one to be popped first at the head, and `out` after it; `none`
if `out` is too short. -/
def CloneTask.run (out : List Data) : CloneTask → Option (List CloneTask × List Data)
  | descend (.constr tag args) => some (args.map descend ++ [buildConstr tag args.length], out)
  | descend (.list items) => some (items.map descend ++ [buildList items.length], out)
  | descend (.map entries) =>
    some ((entries.flatMap fun e => [descend e.1, descend e.2]) ++ [buildMap entries.length], out)
  | descend (.i n) => some ([], out ++ [.i n])
  | descend (.b bytes) => some ([], out ++ [.b bytes])
  | buildConstr tag n => (splitOff n out).map fun (out, args) => ([], out ++ [.constr tag args])
  | buildList n => (splitOff n out).map fun (out, items) => ([], out ++ [.list items])
  | buildMap n =>
    (splitOff (2 * n) out).map fun (out, flat) => ([], out ++ [.map (pairUp flat)])

def cloneStep : List CloneTask × List Data → (List CloneTask × List Data) ⊕ Option Data
  | ([], out) => .inr out.getLast?
  | (task :: tasks, out) =>
    match task.run out with
    | none => .inr none
    | some (pushed, out) => .inl (pushed ++ tasks, out)

theorem splitOff_append (out xs : List Data) : splitOff xs.length (out ++ xs) = some (out, xs) := by
  simp [splitOff]

theorem pairUp_flatMap (entries : List (Data × Data)) :
    pairUp (entries.flatMap fun e => [e.1, e.2]) = entries := by
  induction entries with
  | nil => rfl
  | cons e entries ih => exact congrArg _ ih

/-- A value is cloned at once, or its children are first and a last task puts them together. -/
theorem CloneTask.run_descend (d : Data) (out : List Data) :
    (descend d).run out = some ([], out ++ [d]) ∨
      ∃ build : CloneTask, (descend d).run out = some (d.children.map descend ++ [build], out) ∧
        build.run (out ++ d.children) = some ([], out ++ [d]) := by
  cases d with
  | constr tag args =>
    exact .inr ⟨_, rfl, congrArg (Option.map _) (splitOff_append out args)⟩
  | list items => exact .inr ⟨_, rfl, congrArg (Option.map _) (splitOff_append out items)⟩
  | map entries =>
    refine .inr ⟨.buildMap entries.length, ?_, ?_⟩
    · rw [Data.children, map_flatMap]
      rfl
    · have hlen : 2 * entries.length = (Data.map entries).children.length := by
        simp [Data.children, length_flatMap, Nat.mul_comm]
      rw [run, hlen, splitOff_append, Option.map_some]
      exact congrArg (fun es => some ([], out ++ [.map es])) (pairUp_flatMap entries)
  | i n | b bytes => exact .inl rfl

theorem halts_cons {task : CloneTask} {tasks pushed : List CloneTask} {out out' : List Data}
    {o : Option Data} (h : task.run out = some (pushed, out')) :
    Halts cloneStep (task :: tasks, out) o ↔ Halts cloneStep (pushed ++ tasks, out') o :=
  halts_of_inl (by rw [cloneStep, h])

theorem halts_descend (d : Data) (tasks : List CloneTask) (out : List Data) (o : Option Data) :
    Halts cloneStep (.descend d :: tasks, out) o ↔ Halts cloneStep (tasks, out ++ [d]) o := by
  obtain hleaf | ⟨build, hrun, hbuild⟩ := CloneTask.run_descend d out
  · exact halts_cons hleaf
  · have hchildren (ds : List Data) (h : ∀ c ∈ ds, c ∈ d.children) (out : List Data) :
        Halts cloneStep (ds.map .descend ++ build :: tasks, out) o ↔
          Halts cloneStep (build :: tasks, out ++ ds) o := by
      induction ds generalizing out with
      | nil => rw [map_nil, nil_append, append_nil]
      | cons c ds ih =>
        rw [map_cons, cons_append, halts_descend c,
          ih fun c' hc' => h c' (mem_cons_of_mem _ hc'), append_assoc,
          singleton_append]
    rw [halts_cons hrun, append_assoc, singleton_append, hchildren _ fun _ => id,
      halts_cons hbuild, nil_append]
termination_by sizeOf d
decreasing_by exact Data.sizeOf_lt_of_mem_children (h c mem_cons_self)

/-- The loops compute their recursive definitions, for values whose memory size is an `i64`: a node
of size `n` takes more than `n` bytes, so no value in memory is larger. -/
theorem Data.traversals_exact (d e : Data) (hd : (d.total nodeSize : Int) ≤ i64Max) :
    (d.eq e = true ↔ d = e) ∧ Halts cloneStep ([.descend d], []) (some d) ∧
      d.dataNodeCount = (d.total fun _ => 1 : Nat) ∧ d.sizeOfData = d.total nodeSize := by
  have hcount : d.total (fun _ => 1) ≤ d.total nodeSize :=
    total_mono (by rintro ⟨⟩ <;> grind [nodeSize]) d
  refine ⟨?_, (halts_descend d [] [] _).2 ⟨1, rfl⟩, ?_, ?_⟩
  · rw [eq, eqLoop_iff, forall_mem_singleton]
  · rw [dataNodeCount_eq, min_eq_left (by omega)]
  · rw [sizeOfData_eq, min_eq_left hd]

/-- A constructor over a map and a list. -/
def Data.nested : Data := .constr 1 [.map [(.i (2 ^ 64), .b [1, 2])], .list [.i (-5), .list []]]

theorem Data.nested_traversed : nested.dataNodeCount = 7 ∧ nested.sizeOfData = 32 := by
  have hcount : nested.total (fun _ => 1) = 7 := by simp [total_eq, nested, children]
  have hsize : nested.total nodeSize = 32 := by simp [total_eq, nested, children, nodeSize]; decide
  have h := (traversals_exact nested nested (by rw [hsize]; decide)).2.2
  rwa [hcount, hsize] at h

end Dugite.Uplc
