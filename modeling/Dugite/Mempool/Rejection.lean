import Dugite.Mempool.Dependencies

/-!
# Rejected submissions

A submission is rejected at one of four places: an input is claimed, no room can be made, the
newcomer does not fit into the room that was made, or a chain of pending parents is too long. By
then transactions may have been evicted and edges entered, and neither is undone.
`rejected_unchanged_iff` says of every rejected submission whether the mempool is as before.
-/

namespace Dugite

open Option SortedSet Cascade Finmap List

namespace Mempool

/-! ## The fee index points at pending transactions -/

/-- Every key of the fee index is that of a pending transaction. -/
def Indexed (m : Mempool) : Prop :=
  ∀ k ∈ m.feeIndex, ∃ e, m.txs.lookup k.txHash = some e ∧ e.feeKey k.txHash = k

theorem kept_indexed : Kept Indexed where
  drop m h hm := by
    cases hlookup : m.txs.lookup h with
    | none => rwa [drop_of_none hlookup]
    | some e =>
    rw [drop_of_some hlookup]
    intro k hk
    obtain ⟨hk, hne⟩ := mem_erase.1 hk
    obtain ⟨e', he', hkey⟩ := hm k hk
    refine ⟨e', ?_, hkey⟩
    -- the key of `h` itself is gone
    have hhash : k.txHash ≠ h := by
      intro heq
      rw [heq, hlookup] at he'
      cases he'
      rw [← hkey, heq, FeeDensityKey.compare_self] at hne
      exact hne rfl
    exact (lookup_erase_ne hhash).trans he'
  edges _ _ hm := hm
  compact m hm := by
    rw [maybeCompactOrder]
    split <;> exact hm

variable {m : Mempool} {config : MempoolConfig}

theorem Indexed.addTxFull (hm : Indexed m) (table : Listing.Enumeration Hash32)
    (e : MempoolEntry) : Indexed (m.addTxFull table e).2 := by
  have hm' := kept_indexed.byRemoval.ensureCapacity e hm
  have houtcome := submitted table m e
  generalize (m.addTxFull table e).2 = m' at houtcome
  cases houtcome with
  | unchanged => exact hm
  | refused | tooDeep => exact hm'
  | added h =>
  obtain ⟨edges, -, rfl⟩ := h.linked
  have hnone := lookup_ensureCapacity_none (e := e) h.new
  generalize (m.ensureCapacity e).2 = m₁ at hm' hnone
  intro k hk
  have hindex : (enter { m₁ with
      claimedInputs := m₁.claimedInputs.insertAll (e.tx.body.inputs.map (·, e.txHash))
      dependents := edges } e).feeIndex = m₁.feeIndex.insert (e.feeKey e.txHash) := by
    unfold enter pushOrder Mempool.maybeCompactOrder
    dsimp only
    split <;> rfl
  rw [hindex] at hk
  rw [enter_txs]
  rcases mem_of_mem_insertElem hk with rfl | hk
  · exact ⟨e, lookup_insert _, rfl⟩
  obtain ⟨e', he', hkey⟩ := hm' k hk
  refine ⟨e', ?_, hkey⟩
  rw [lookup_insert_of_ne _ fun heq => ?_]
  · exact he'
  · rw [heq, hnone] at he'
    cases he'

theorem Indexed.call (hm : Indexed m) (c : Call) : Indexed (m.call c) := by
  cases c with
  | addTxFull table e => exact hm.addTxFull table e
  | updateCapacityFromParams size mem steps => exact hm
  | drainAll | clear => exact fun _ hk => nomatch hk
  | _ => exact kept_indexed.call rfl hm

theorem Reached.indexed {P : Mempool → Call → Prop} (h : Reached config P m) : Indexed m := by
  induction h with
  | new => exact fun _ hk => nomatch hk
  | call _ _ ih => exact ih.call _

/-! ## Making room -/

/-- The newcomer needs room and beats the worst pending transaction: an eviction takes place. -/
def Displaces (m : Mempool) (e : MempoolEntry) : Prop :=
  m.needsEviction e = true ∧ ∃ worst, m.feeIndex.last? = some worst ∧
    worst.fee * (if e.sizeBytes = 0 then 1 else e.sizeBytes) < e.fee * worst.size

/-- The newcomer is turned away before its parents are looked at: it needs room and there is a
transaction to compare it with, or there is none and it does not fit all the same. -/
def Refuses (m : Mempool) (e : MempoolEntry) : Prop :=
  m.needsEviction e = true ∧ m.feeIndex.last?.isSome = true ∨
    m.txCount ≥ m.config.maxTransactions ∨ wrapAdd m.totalBytes e.sizeBytes > m.config.maxBytes

section
variable {m : Mempool} {e : MempoolEntry}

theorem size_pos_of_last {worst : FeeDensityKey} (hm : Indexed m)
    (hlast : m.feeIndex.last? = some worst) : 0 < m.txs.size := by
  obtain ⟨e', he', -⟩ := hm worst (mem_of_last? hlast)
  exact Finset.card_pos.2 ⟨worst.txHash, mem_keys_iff.2 ⟨e', he'⟩⟩

/-- An eviction takes a transaction out that does not come back. -/
theorem Displaces.changes (hm : Indexed m) (h : Displaces m e) :
    ∃ x, (m.txs.lookup x).isSome = true ∧ (m.ensureCapacity e).2.txs.lookup x = none := by
  obtain ⟨hneeds, worst, hlast, hbeats⟩ := h
  obtain ⟨e', he', -⟩ := hm worst (mem_of_last? hlast)
  obtain ⟨n, hn⟩ : ∃ n, m.txs.size = n + 1 :=
    Nat.exists_eq_succ_of_ne_zero (size_pos_of_last hm hlast).ne'
  refine ⟨worst.txHash, by rw [he']; rfl, ?_⟩
  have hloop : m.ensureCapacity e = evictLoop e n (m.removeTx worst.txHash).2 := by
    rw [ensureCapacity, hn, evictLoop, hneeds, hlast]
    exact if_neg (Nat.not_le_of_lt hbeats)
  have hgone : (m.removeTx worst.txHash).2.txs.lookup worst.txHash = none := by
    rw [removeTx, removeTxWithReason_eq he' (by decide), maybeCompactOrder_txs,
      lookup_cascadeDrop, if_pos (.inl rfl)]
  rw [hloop, eq_none_iff_forall_ne_some]
  intro e'' he''
  have hback := (kept_pending (m.removeTx worst.txHash).2).byRemoval.evictLoop e n
    (fun _ _ => id) worst.txHash e'' he''
  rw [hgone] at hback
  cases hback

/-- Without an eviction the mempool stays, and there is room unless someone better is in the way. -/
theorem ensureCapacity_of_not_displaces (hm : Indexed m) (h : ¬ Displaces m e) :
    m.ensureCapacity e = (!(m.needsEviction e && m.feeIndex.last?.isSome), m) := by
  rw [ensureCapacity]
  cases hneeds : m.needsEviction e with
  | false =>
    cases m.txs.size with
    | zero => rfl
    | succ n => rw [evictLoop, hneeds]; rfl
  | true =>
  cases hlast : m.feeIndex.last? with
  | none =>
    cases m.txs.size with
    | zero => rfl
    | succ n => rw [evictLoop, hneeds, hlast]; rfl
  | some worst =>
  obtain ⟨n, hn⟩ : ∃ n, m.txs.size = n + 1 :=
    Nat.exists_eq_succ_of_ne_zero (size_pos_of_last hm hlast).ne'
  rw [hn, evictLoop, hneeds, hlast]
  exact if_pos (Nat.le_of_not_lt fun hbeats => h ⟨hneeds, worst, hlast, hbeats⟩)

end

/-! ## Entering edges -/

section
variable (table : Listing.Enumeration Hash32)
  (virtualUtxo : FinMap TransactionInput TransactionOutput) (h : Hash32)

/-- The first input that names an output of another pending transaction. -/
def firstParent (inputs : List TransactionInput) : Option TransactionInput :=
  inputs.find? fun i => decide ((virtualUtxo.lookup i).isSome ∧ i.transactionId ≠ h)

/-- The edges of a failed linking are the old ones exactly if the first pending parent failed. -/
theorem linkParents_edges_iff {inputs : List TransactionInput}
    {edges : FinMap Hash32 (List Hash32)} {err : MempoolError}
    (herr : (linkParents table virtualUtxo h inputs edges).1 = .error err) :
    (linkParents table virtualUtxo h inputs edges).2 = edges ↔
      ¬ ∃ i, firstParent virtualUtxo h inputs = some i ∧
        climb table edges (virtualChainMaxDepth - 1) i.transactionId = .ok () := by
  induction inputs with
  | nil => cases herr
  | cons i inputs ih =>
    rw [linkParents] at herr ⊢
    rw [firstParent, find?_cons]
    by_cases hpending : (virtualUtxo.lookup i).isSome ∧ i.transactionId ≠ h
    · rw [if_pos hpending] at herr ⊢
      rw [decide_eq_true hpending]
      cases hclimb : climb table edges (virtualChainMaxDepth - 1) i.transactionId with
      | error err' =>
        refine ⟨fun _ => ?_, fun _ => rfl⟩
        rintro ⟨i', hi', hok⟩
        cases hi'
        rw [hclimb] at hok
        cases hok
      | ok u =>
        refine ⟨fun heq => ?_, fun hnot => absurd ⟨i, rfl, hclimb⟩ hnot⟩
        -- the list of the parent has grown
        have hgrown := (children_prefix_linkParents table virtualUtxo h inputs
          (edges.insert i.transactionId (children edges i.transactionId ++ [h]))
          i.transactionId).length_le
        have heq' := heq
        rw [heq', children, lookup_insert, getD_some, length_append, length_singleton] at hgrown
        omega
    · rw [if_neg hpending] at herr ⊢
      rw [decide_eq_false hpending]
      exact ih herr

end

/-! ## The submission as a whole -/

/-- A spending input is claimed by a pending transaction. -/
def Conflicts (m : Mempool) (e : MempoolEntry) : Prop :=
  ∃ i ∈ e.tx.body.inputs, (m.claimedInputs.lookup i).isSome = true

section
variable (table : Listing.Enumeration Hash32) (m : Mempool) (e : MempoolEntry)

/-- The first pending parent is no longer than allowed: an edge is entered. -/
def Links : Prop :=
  ∃ i, firstParent m.virtualUtxo e.txHash e.tx.body.inputs = some i ∧
    climb table m.dependents (virtualChainMaxDepth - 1) i.transactionId = .ok ()

/-- A submission that, if rejected, has touched nothing. -/
def Untouched : Prop := Conflicts m e ∨ ¬ Displaces m e ∧ (Refuses m e ∨ ¬ Links table m e)

end

variable {table : Listing.Enumeration Hash32} {m : Mempool} {e : MempoolEntry} {err : MempoolError}

/-- What a rejection leaves when no eviction took place. -/
theorem addChecked_unchanged_iff (hfree : ∀ i ∈ e.tx.body.inputs, m.claimedInputs.lookup i = none)
    (herr : (addChecked table m e).1 = .error err) :
    (addChecked table m e).2 = m ↔ (m.txCount ≥ m.config.maxTransactions ∨
        wrapAdd m.totalBytes e.sizeBytes > m.config.maxBytes) ∨ ¬ Links table m e := by
  rw [addChecked] at herr ⊢
  split_ifs at herr ⊢ with hcount hbytes
  · exact ⟨fun _ => .inl (.inl hcount), fun _ => rfl⟩
  · exact ⟨fun _ => .inl (.inr hbytes), fun _ => rfl⟩
  have hnot : ¬ (m.txCount ≥ m.config.maxTransactions ∨
      wrapAdd m.totalBytes e.sizeBytes > m.config.maxBytes) := by
    rintro (h | h)
    · exact hcount h
    · exact hbytes h
  rw [or_iff_right hnot]
  cases hlink : linkParents table m.virtualUtxo e.txHash e.tx.body.inputs m.dependents with
  | mk outcome edges =>
    cases outcome with
    | ok u =>
      rw [hlink] at herr
      cases herr
    | error err' =>
    have hedges := linkParents_edges_iff table m.virtualUtxo e.txHash
      (show (linkParents table m.virtualUtxo e.txHash e.tx.body.inputs m.dependents).1 =
        .error err' by rw [hlink])
    rw [hlink] at hedges
    dsimp only at hedges ⊢
    rw [claim_release hfree]
    refine Iff.trans ⟨congrArg Mempool.dependents, fun heq : edges = m.dependents => ?_⟩ hedges
    rw [heq]

theorem addTxFull_of_conflict (hnew : m.txs.lookup e.txHash = none) (h : Conflicts m e) :
    (m.addTxFull table e).2 = m := by
  obtain ⟨i, hi, hclaimed⟩ := h
  have hsome : ∃ x, (e.tx.body.inputs.findSome? fun i => m.claimedInputs.lookup i) = some x := by
    rw [← isSome_iff_exists, findSome?_isSome_iff]
    exact ⟨i, hi, hclaimed⟩
  obtain ⟨x, hx⟩ := hsome
  rw [addTxFull, hnew, hx]
  rfl

theorem addTxFull_of_not_conflict (hnew : m.txs.lookup e.txHash = none) (h : ¬ Conflicts m e) :
    m.addTxFull table e = if (m.ensureCapacity e).1 = true
      then addChecked table (m.ensureCapacity e).2 e
      else (.error .insufficientPriority, (m.ensureCapacity e).2) := by
  have hnone : (e.tx.body.inputs.findSome? fun i => m.claimedInputs.lookup i) = none := by
    rw [findSome?_eq_none_iff]
    intro i hi
    rw [eq_none_iff_forall_ne_some]
    intro x hx
    exact h ⟨i, hi, by rw [hx]; rfl⟩
  rw [addTxFull, hnew, hnone]
  rfl

/-- A rejected submission leaves the mempool as it was exactly if an input was claimed, or nothing
was evicted and the rejection came before the first edge. -/
theorem rejected_unchanged_iff {config : MempoolConfig} (hm : Reached config (fun _ _ => True) m)
    (herr : (m.addTxFull table e).1 = .error err) :
    (m.addTxFull table e).2 = m ↔ Untouched table m e := by
  have hindexed := hm.indexed
  have hnew : m.txs.lookup e.txHash = none := by
    rw [eq_none_iff_forall_ne_some]
    intro e' he'
    rw [addTxFull, he'] at herr
    cases herr
  by_cases hconflict : Conflicts m e
  · exact ⟨fun _ => .inl hconflict, fun _ => addTxFull_of_conflict hnew hconflict⟩
  have hfree : ∀ i ∈ e.tx.body.inputs, m.claimedInputs.lookup i = none := by
    intro i hi
    rw [eq_none_iff_forall_ne_some]
    intro x hx
    exact hconflict ⟨i, hi, by rw [hx]; rfl⟩
  rw [Untouched, or_iff_right hconflict]
  by_cases hdisplaces : Displaces m e
  · refine ⟨fun heq => ?_, fun h => absurd hdisplaces h.1⟩
    -- an evicted transaction is pending before and not afterwards
    obtain ⟨x, hpending, hgone⟩ := hdisplaces.changes hindexed
    have hafter : (m.addTxFull table e).2.txs = (m.ensureCapacity e).2.txs := by
      rw [addTxFull_of_not_conflict hnew hconflict] at herr ⊢
      split at herr
      · next hroom =>
        rw [if_pos hroom]
        rw [addChecked] at herr ⊢
        split at herr
        · next hcount => rw [if_pos hcount]
        next hcount =>
        rw [if_neg hcount]
        split at herr
        · next hbytes => rw [if_pos hbytes]
        next hbytes =>
        rw [if_neg hbytes]
        cases hlink : linkParents table (m.ensureCapacity e).2.virtualUtxo e.txHash
            e.tx.body.inputs (m.ensureCapacity e).2.dependents with
        | mk outcome edges =>
          rw [hlink] at herr
          cases outcome with
          | ok u => cases herr
          | error err' => rfl
      · next hroom => rw [if_neg hroom]
    rw [heq] at hafter
    rw [hafter, hgone] at hpending
    cases hpending
  · rw [and_iff_right hdisplaces]
    have hroom := ensureCapacity_of_not_displaces hindexed hdisplaces
    rw [addTxFull_of_not_conflict hnew hconflict, hroom] at herr ⊢
    by_cases hblocked : m.needsEviction e = true ∧ m.feeIndex.last?.isSome = true
    · rw [if_neg (by simp [hblocked])]
      exact ⟨fun _ => .inl (.inl hblocked), fun _ => rfl⟩
    have hpass : (!(m.needsEviction e && m.feeIndex.last?.isSome)) = true := by
      rw [Bool.not_eq_true', Bool.and_eq_false_iff]
      by_cases hneeds : m.needsEviction e = true
      · exact .inr (Bool.eq_false_iff.2 fun hlast => hblocked ⟨hneeds, hlast⟩)
      · exact .inl (Bool.eq_false_iff.2 hneeds)
    rw [if_pos hpass] at herr ⊢
    rw [addChecked_unchanged_iff hfree herr, Refuses, or_iff_right hblocked]

theorem reached_submitAll (hm : Reached config (fun _ _ => True) m) (es : List MempoolEntry) :
    Reached config (fun _ _ => True) (m.submitAll es) := by
  induction es generalizing m with
  | nil => exact hm
  | cons e es ih => exact ih (hm.call trivial)

/-- A mempool for two transactions is full and turns the third away, which pays no more. -/
theorem full_unchanged :
    let m := (new { maxTransactions := 2 }).submitAll (family.take 2)
    m.totalBytes = 500 ∧ (m.addTxFull byHash (spending 3 [⟨8, 0⟩] 100)).1 =
        .error .insufficientPriority ∧
      (m.addTxFull byHash (spending 3 [⟨8, 0⟩] 100)).2 = m := by
  intro m
  have hreached : Reached { maxTransactions := 2 } (fun _ _ => True) m :=
    reached_submitAll .new _
  have herr : (m.addTxFull byHash (spending 3 [⟨8, 0⟩] 100)).1 = .error .insufficientPriority := by
    decide +kernel
  refine ⟨by decide +kernel, herr, (rejected_unchanged_iff hreached herr).2 (.inr ⟨?_, ?_⟩)⟩
  · rintro ⟨-, worst, -, hfee⟩
    exact absurd hfee (by simp [spending])
  · exact .inl (.inl ⟨by decide +kernel, by decide +kernel⟩)

/-! ### Rejections that leave something behind -/

def cheap : MempoolEntry := { tx := { hash := 1 }, txHash := 1, sizeBytes := 4, fee := 1 }

def dear : MempoolEntry := { tx := { hash := 2 }, txHash := 2, sizeBytes := 4, fee := 100 }

/-- Better than `cheap` and worse than `dear`, and there is room for it only without both. -/
def bulky : MempoolEntry := { tx := { hash := 3 }, txHash := 3, sizeBytes := 8, fee := 3 }

/-- Five transactions in a chain, and one beside it. -/
def chained : List MempoolEntry :=
  [spending 1 [⟨9, 0⟩], spending 2 [⟨1, 0⟩], spending 3 [⟨2, 0⟩], spending 4 [⟨3, 0⟩],
    spending 5 [⟨4, 0⟩], spending 7 [⟨8, 0⟩]]

/-- A newcomer evicts a transaction and is then turned away by the next one; another is entered
among the dependents of one parent and is then turned away because of the other. -/
theorem rejection_leaves_traces :
    (∃ m, Reached { maxBytes := 10 } (fun _ _ => True) m ∧
      (m.addTxFull byHash bulky).1 = .error .insufficientPriority ∧
      (m.txs.lookup 1).isSome ∧ ((m.addTxFull byHash bulky).2.txs.lookup 1).isNone) ∧
    ∃ m e, Reached {} (fun _ _ => True) m ∧
      (m.addTxFull byHash e).1 = .error (.virtualChainTooDeep 5 5) ∧
      children m.dependents 7 = [] ∧
      children (m.addTxFull byHash e).2.dependents 7 = [6] := by
  constructor
  · exact ⟨(new { maxBytes := 10 }).submitAll [cheap, dear], reached_submitAll .new _,
      by decide +kernel, by decide +kernel, by decide +kernel⟩
  · exact ⟨(new {}).submitAll chained, spending 6 [⟨7, 0⟩, ⟨5, 0⟩], reached_submitAll .new _,
      by decide +kernel, by decide +kernel, by decide +kernel⟩

end Mempool

end Dugite
