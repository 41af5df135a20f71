import Dugite.Mempool.Pool

/-!
# What a removal does

A removal takes one transaction out, then its descendants in one batch: the fee index and the totals
are corrected at the end. `drop` takes one transaction out of everything at once, and
`removeTxWithReason_eq` says that a removal is a sequence of drops, a change of the edges and a
compaction of the queue. `Kept.byRemoval` and the lemmas after it carry a property of the mempool
from these to every sweep.
-/

namespace Dugite

open List

theorem wrapSub_lt (a b : Nat) : wrapSub a b < 2 ^ 64 := Nat.mod_lt _ (by decide)

theorem wrapSub_wrapAdd_zero (t a : Nat) : wrapSub t (wrapAdd 0 a) = wrapSub t a := by
  rw [wrapSub, wrapAdd, Nat.zero_add, Nat.mod_mod, wrapSub]

theorem wrapSub_wrapAdd (t a b : Nat) : wrapSub t (wrapAdd a b) = wrapSub (wrapSub t a) b := by
  simp only [wrapSub, wrapAdd]
  omega

theorem wrapSub_zero {t : Nat} (h : t < 2 ^ 64) : wrapSub t 0 = t := by
  rw [wrapSub]
  omega

namespace Mempool

/-- Take one transaction out of everything, when it is pending. -/
def drop (m : Mempool) (h : Hash32) : Mempool :=
  match m.txs.lookup h with
  | none => m
  | some e => (m.unlink h e).discount (Batch.push {} h e)

variable {m : Mempool} {h : Hash32} {e : MempoolEntry}

theorem drop_of_none (hnone : m.txs.lookup h = none) : m.drop h = m := by
  rw [drop, hnone]

theorem drop_of_some (hsome : m.txs.lookup h = some e) :
    m.drop h = (m.unlink h e).discount (Batch.push {} h e) := by
  rw [drop, hsome]

/-! ## The batch -/

/-- The accounts of a batch of one. -/
theorem discount_single (m : Mempool) (h : Hash32) (e : MempoolEntry) :
    m.discount ⟨[e.feeKey h], e.sizeBytes, e.exUnitsMem, e.exUnitsSteps, e.refScriptsBytes⟩ =
      m.discount (Batch.push {} h e) := by
  simp only [discount, Batch.push, wrapSub_wrapAdd_zero, nil_append]

theorem removeChild_discount (s : Mempool × Batch) (c : Hash32) :
    (removeChild s c).1.discount (removeChild s c).2 = (s.1.discount s.2).drop c := by
  have hlookup : (s.1.discount s.2).txs.lookup c = s.1.txs.lookup c := rfl
  rw [removeChild]
  cases hc : s.1.txs.lookup c with
  | none => rw [drop_of_none (hlookup.trans hc)]
  | some e =>
    rw [drop_of_some (hlookup.trans hc), ← discount_single]
    simp only [discount, Batch.push, wrapSub_wrapAdd, SortedSet.eraseAll, foldl_append,
      foldl_cons, foldl_nil]
    rfl

/-- Children that are counted out together are dropped one by one. -/
theorem foldl_removeChild_discount (children : List Hash32) (s : Mempool × Batch) :
    (children.foldl removeChild s).1.discount (children.foldl removeChild s).2 =
      children.foldl drop (s.1.discount s.2) := by
  induction children generalizing s with
  | nil => rfl
  | cons c children ih =>
    rw [foldl_cons, ih, removeChild_discount, foldl_cons]

/-- Nothing is taken off totals that are machine words. -/
theorem discount_nothing (m : Mempool) (b : Batch) : (m.discount b).discount {} = m.discount b := by
  simp only [discount, wrapSub_zero (wrapSub_lt _ _)]
  rfl

/-! ## The removal -/

/-- A removal that is not by mining: the transaction, then the edges, then the descendants. -/
def cascadeDrop (m : Mempool) (h : Hash32) : Mempool :=
  (Cascade.cascade m.dependents h).2.foldl drop
    { m.drop h with dependents := (Cascade.cascade m.dependents h).1 }

theorem removeTxWithReason_of_none (hnone : m.txs.lookup h = none)
    (reason : MempoolRemoveReason) : m.removeTxWithReason h reason = (none, m) := by
  rw [removeTxWithReason, hnone]

/-- A mined transaction leaves alone. -/
theorem removeTxWithReason_mined (hsome : m.txs.lookup h = some e) : m.removeTxWithReason h .mined =
      (some e.tx, { m.drop h with dependents := m.dependents.erase h }) := by
  rw [removeTxWithReason, hsome, drop_of_some hsome]
  simp only [discount_single, if_pos]
  rfl

theorem removeTxWithReason_eq
    (hsome : m.txs.lookup h = some e) {reason : MempoolRemoveReason} (hreason : reason ≠ .mined) :
    m.removeTxWithReason h reason = (some e.tx, (m.cascadeDrop h).maybeCompactOrder) := by
  rw [removeTxWithReason, hsome, cascadeDrop, drop_of_some hsome]
  simp only [discount_single, if_neg hreason]
  have hedges : ((m.unlink h e).discount (Batch.push {} h e)).dependents = m.dependents := rfl
  rw [hedges]
  generalize hcascade : Cascade.cascade m.dependents h = r
  obtain ⟨edges, children⟩ := r
  split
  · next hempty => rw [isEmpty_iff.1 hempty]; rfl
  · rw [foldl_removeChild_discount]
    exact congrArg (fun m => (some e.tx, (children.foldl drop m).maybeCompactOrder))
      (discount_nothing { m.unlink h e with dependents := edges } (Batch.push {} h e))

/-! ## Properties that removals keep -/

/-- `P` is kept by what a removal is made of. -/
structure Kept (P : Mempool → Prop) : Prop where
  drop : ∀ m h, P m → P (m.drop h)
  edges : ∀ m edges, P m → P { m with dependents := edges }
  compact : ∀ m, P m → P m.maybeCompactOrder

/-- The calls that only take entries out. -/
def Call.removes : Call → Bool
  | .removeTx .. | .evictExpired .. | .revalidateAgainstInputs .. | .revalidateAll _ => true
  | _ => false

/-- `P` is kept by every removal that is not by mining, and by a compaction. -/
structure KeptByRemoval (P : Mempool → Prop) : Prop where
  remove : ∀ m h reason, reason ≠ .mined → P m → P (m.removeTxWithReason h reason).2
  compact : ∀ m, P m → P m.maybeCompactOrder

section
variable {P : Mempool → Prop} {m : Mempool}

theorem Kept.foldl_drop (hP : Kept P) (hs : List Hash32) (hm : P m) : P (hs.foldl Mempool.drop m) :=
  foldlRecOn (motive := P) hs _ hm fun m hm h _ => hP.drop m h hm

/-- A removal is a run of drops. -/
theorem Kept.removeTxWithReason (hP : Kept P) (h : Hash32) (reason : MempoolRemoveReason)
    (hm : P m) : P (m.removeTxWithReason h reason).2 := by
  cases hlookup : m.txs.lookup h with
  | none => rwa [removeTxWithReason_of_none hlookup]
  | some e =>
  by_cases hreason : reason = .mined
  · rw [hreason, removeTxWithReason_mined hlookup]
    exact hP.edges _ _ (hP.drop m h hm)
  · rw [removeTxWithReason_eq hlookup hreason]
    exact hP.compact _ (hP.foldl_drop _ (hP.edges _ _ (hP.drop m h hm)))

theorem Kept.byRemoval (hP : Kept P) : KeptByRemoval P :=
  ⟨fun _ h reason _ hm => hP.removeTxWithReason h reason hm, hP.compact⟩

namespace KeptByRemoval

variable (hP : KeptByRemoval P) (table : Listing.Enumeration Hash32)
include hP

theorem removeTxs (hs : List Hash32) (hm : P m) : P (m.removeTxsWithReason hs .evicted) := by
  induction hs generalizing m with
  | nil => exact hm
  | cons h hs ih => exact ih (hP.remove m h .evicted (by decide) hm)

theorem evictExpired (slot : Nat) (hm : P m) : P (m.evictExpired table slot).2 := by
  rw [Mempool.evictExpired]
  split
  · exact hP.compact _ (hP.removeTxs _ hm)
  · exact hP.removeTxs _ hm

theorem revalidateAgainstInputs (consumed : Finset TransactionInput) (hm : P m) :
    P (m.revalidateAgainstInputs table consumed).2 :=
  hP.removeTxs _ hm

theorem revalidateAll (isValid : List Transaction → Transaction → Bool) (hm : P m) :
    P (m.revalidateAll isValid).2 := by
  have hfold : ∀ (hs : List Hash32) (s : Mempool × List Transaction × List Hash32), P s.1 →
      P (hs.foldl (revalidateOne isValid) s).1 := by
    intro hs
    induction hs with
    | nil => exact fun _ hs => hs
    | cons h hs ih =>
      intro s hs
      refine ih _ ?_
      rw [revalidateOne]
      split
      · exact hs
      · split
        · exact hs
        · exact hP.remove s.1 h .evicted (by decide) hs
  exact hfold _ _ hm

theorem evictLoop (e : MempoolEntry) (fuel : Nat) (hm : P m) :
    P (Mempool.evictLoop e fuel m).2 := by
  induction fuel generalizing m with
  | zero => exact hm
  | succ fuel ih =>
    rw [Mempool.evictLoop]
    split
    · exact hm
    split
    · exact hm
    generalize (if e.sizeBytes = 0 then 1 else e.sizeBytes) = newSizeCmp
    dsimp only
    split
    · exact hm
    · exact ih (hP.remove m _ .manual (by decide) hm)

theorem ensureCapacity (e : MempoolEntry) (hm : P m) : P (m.ensureCapacity e).2 :=
  hP.evictLoop e _ hm

/-- A call that only removes does so by removals and compaction. -/
theorem call {c : Call} (hc : c.removes = true) (hm : P m)
    (hremove : ∀ h reason, P (m.removeTxWithReason h reason).2) : P (m.call c) := by
  cases c with
  | removeTx h reason => exact hremove h reason
  | evictExpired table slot => exact hP.evictExpired table slot hm
  | revalidateAgainstInputs table consumed => exact hP.revalidateAgainstInputs table consumed hm
  | revalidateAll isValid => exact hP.revalidateAll isValid hm
  | _ => cases hc

end KeptByRemoval

theorem Kept.call (hP : Kept P) {c : Call} (hc : c.removes = true) (hm : P m) : P (m.call c) :=
  hP.byRemoval.call hc hm fun h reason => hP.removeTxWithReason h reason hm

end

/-! ## What is pending afterwards was pending before -/

@[simp] theorem drop_txs (m : Mempool) (h : Hash32) : (m.drop h).txs = m.txs.erase h := by
  cases hlookup : m.txs.lookup h with
  | none => rw [drop_of_none hlookup, FinMap.erase_of_lookup_none hlookup]
  | some e => rw [drop_of_some hlookup]; rfl

@[simp] theorem maybeCompactOrder_txs (m : Mempool) : m.maybeCompactOrder.txs = m.txs := by
  rw [maybeCompactOrder]
  split <;> rfl

/-- A drop adds nothing. -/
theorem pending_of_drop {x h : Hash32}
    (he : (m.drop x).txs.lookup h = some e) : m.txs.lookup h = some e := by
  rw [drop_txs, FinMap.lookup_erase_ite] at he
  split at he
  · cases he
  · exact he

theorem kept_pending (m₀ : Mempool) :
    Kept fun m => ∀ h e, m.txs.lookup h = some e → m₀.txs.lookup h = some e where
  drop _ _ hm h e he := hm h e (pending_of_drop he)
  edges _ _ hm := hm
  compact m hm := by rwa [maybeCompactOrder_txs]

/-- Making room leaves a part of what was pending. -/
theorem pending_of_ensureCapacity {e' : MempoolEntry} {h : Hash32}
    (he : (m.ensureCapacity e).2.txs.lookup h = some e') : m.txs.lookup h = some e' :=
  (kept_pending m).byRemoval.ensureCapacity e (fun _ _ => id) h e' he

end Mempool

end Dugite
