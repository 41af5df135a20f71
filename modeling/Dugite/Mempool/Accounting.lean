import Dugite.Mempool.Removal

/-!
# The accounts of the mempool

`Accounted` says what the redundant structures of the mempool hold in terms of the pending
transactions, with the totals as machine words. Dropping a pending transaction keeps it, so every
removal does; admission keeps it; and so does everything else but draining, which forgets the
accounts of a transaction that has fallen out of the queue.
-/

namespace Dugite

open FinMap List FeeDensityKey Finmap Nat

theorem wrapAdd_mod (t a : Nat) : wrapAdd (t % 2 ^ 64) a = (t + a) % 2 ^ 64 := by
  rw [wrapAdd, mod_add_mod]

namespace Mempool

/-- The output of a transaction that the virtual UTxO shows for an input. -/
def publishedOutput (tx : Transaction) (i : TransactionInput) : Option TransactionOutput :=
  ((virtualOutputs i.transactionId tx).filter (·.1 = i)).getLast?.map (·.2)

/-! ## Outputs and their keys -/

variable {tx : Transaction} {i : TransactionInput} {h : Hash32} {f : MempoolEntry → Nat}
  {m : Mempool} {e : MempoolEntry} {o : TransactionOutput}

theorem mem_virtualOutputs : (i, o) ∈ virtualOutputs h tx ↔ i.transactionId = h ∧
      ∃ n, tx.body.outputs[n]? = some o ∧ BitVec.ofNat 32 n = i.index := by
  obtain ⟨id, index⟩ := i
  simp only [virtualOutputs, mem_map, Prod.exists, Prod.mk.injEq, TransactionInput.mk.injEq]
  constructor
  · rintro ⟨o', n, hmem, ⟨rfl, rfl⟩, rfl⟩
    exact ⟨rfl, n, mem_zipIdx_iff_getElem?.1 hmem, rfl⟩
  · rintro ⟨rfl, n, hn, rfl⟩
    exact ⟨o, n, mem_zipIdx_iff_getElem?.2 hn, ⟨rfl, rfl⟩, rfl⟩

theorem publishedOutput_eq_none :
    publishedOutput tx i = none ↔ i ∉ (virtualOutputs i.transactionId tx).map (·.1) := by
  rw [publishedOutput, Option.map_eq_none_iff, getLast?_eq_none_iff, filter_eq_nil_iff]
  simp only [decide_eq_true_eq, mem_map, not_exists, not_and]

theorem mem_of_publishedOutput
    (h : publishedOutput tx i = some o) : (i, o) ∈ virtualOutputs i.transactionId tx := by
  obtain ⟨⟨i', o'⟩, hlast, rfl⟩ := Option.map_eq_some_iff.1 h
  obtain ⟨hmem, heq⟩ := mem_filter.1 (mem_of_getLast? hlast)
  rwa [← of_decide_eq_true heq] at hmem ⊢

/-- Indices of 32 bits tell the outputs of a transaction apart, so that each is shown under its
own. -/
theorem publishedOutput_eq_getElem? (hlen : tx.body.outputs.length ≤ 2 ^ 32)
    (i : TransactionInput) : publishedOutput tx i = tx.body.outputs[i.index.toNat]? := by
  cases hout : publishedOutput tx i with
  | some o =>
    obtain ⟨-, n, hn, hindex⟩ := mem_virtualOutputs.1 (mem_of_publishedOutput hout)
    have hlt : n < 2 ^ 32 := lt_of_lt_of_le (List.getElem?_eq_some_iff.1 hn).1 hlen
    rw [← hindex, BitVec.toNat_ofNat, mod_eq_of_lt hlt, hn]
  | none =>
  symm
  rw [Option.eq_none_iff_forall_ne_some]
  intro o ho
  refine publishedOutput_eq_none.1 hout (mem_map.2 ⟨(i, o), mem_virtualOutputs.2 ?_, rfl⟩)
  exact ⟨rfl, i.index.toNat, ho, BitVec.ofNat_toNat _ _⟩

/-! ## The invariant -/

/-- The structures of the mempool in terms of the pending transactions. -/
structure Accounted (m : Mempool) : Prop where
  keyed : ∀ h e, m.txs.lookup h = some e → e.txHash = h
  count : m.txCount = m.txs.size
  count_le : m.txs.size ≤ u64Max
  bytes : m.totalBytes = m.txs.total (·.sizeBytes) % 2 ^ 64
  exMem : m.totalExMem = m.txs.total (·.exUnitsMem) % 2 ^ 64
  exSteps : m.totalExSteps = m.txs.total (·.exUnitsSteps) % 2 ^ 64
  refs : m.totalRefScriptsBytes = m.txs.total (·.refScriptsBytes) % 2 ^ 64
  fees : ∀ k, k ∈ m.feeIndex ↔ ∃ h e, m.txs.lookup h = some e ∧ e.feeKey h = k
  claims : ∀ i h, m.claimedInputs.lookup i = some h ↔
    ∃ e, m.txs.lookup h = some e ∧ i ∈ e.tx.body.inputs
  outputs : ∀ i, m.virtualUtxo.lookup i =
    (m.txs.lookup i.transactionId).bind fun e => publishedOutput e.tx i

theorem accounted_new (config : MempoolConfig) : Accounted (new config) where
  keyed _ _ h := nomatch h
  count := rfl
  count_le := zero_le _
  bytes := rfl
  exMem := rfl
  exSteps := rfl
  refs := rfl
  fees _ := ⟨(nomatch ·), fun ⟨_, _, h, _⟩ => nomatch h⟩
  claims _ _ := ⟨(nomatch ·), fun ⟨_, h, _⟩ => nomatch h⟩
  outputs _ := rfl

theorem FeeDensityKey.compare_self (k : FeeDensityKey) : compare k k = .eq :=
  Std.ReflCmp.compare_self

/-- A total without one of its entries, as a machine word. -/
theorem wrapSub_total (hsome : m.txs.lookup h = some e) :
    wrapSub (m.txs.total f % 2 ^ 64) (f e) = total f (m.txs.erase h) % 2 ^ 64 := by
  have herase := total_erase (f := f) h m.txs
  rw [weightAt, hsome, Option.elim_some] at herase
  rw [wrapSub]
  omega

/-- A total with a new entry, as a machine word. -/
theorem wrapAdd_total (hnone : m.txs.lookup h = none) (e : MempoolEntry) :
    wrapAdd (m.txs.total f % 2 ^ 64) (f e) = total f (m.txs.insert h e) % 2 ^ 64 := by
  have hinsert := total_insert (f := f) h e m.txs
  rw [weightAt, hnone, Option.elim_none, add_zero] at hinsert
  rw [wrapAdd_mod, hinsert]

section Drop
variable {m : Mempool} {h : Hash32} {e : MempoolEntry}

section
variable (hm : Accounted m) (hsome : m.txs.lookup h = some e)
include hm hsome

theorem Accounted.fees_drop (k : FeeDensityKey) : k ∈ m.feeIndex.erase (e.feeKey h) ↔
      ∃ h' e', (m.txs.erase h).lookup h' = some e' ∧ e'.feeKey h' = k := by
  rw [SortedSet.mem_erase, hm.fees]
  constructor
  · rintro ⟨⟨h', e', he', rfl⟩, hne⟩
    refine ⟨h', e', ?_, rfl⟩
    rw [lookup_erase_ite, if_neg]
    · exact he'
    · rintro rfl
      rw [Option.some.inj (hsome.symm.trans he')] at hne
      exact hne (FeeDensityKey.compare_self _)
  · rintro ⟨h', e', he', rfl⟩
    rw [lookup_erase_ite] at he'
    split at he'
    · cases he'
    · next hne => exact ⟨⟨h', e', he', rfl⟩, fun heq => hne
        (txHash_eq_of_compare heq).symm⟩

/-- An input is claimed by one pending transaction only. -/
theorem Accounted.claims_drop (i : TransactionInput) (h' : Hash32) :
    (m.claimedInputs.eraseAll e.tx.body.inputs).lookup i = some h' ↔
      ∃ e', (m.txs.erase h).lookup h' = some e' ∧ i ∈ e'.tx.body.inputs := by
  have hclaim : ∀ h' e', m.txs.lookup h' = some e' → i ∈ e'.tx.body.inputs →
      m.claimedInputs.lookup i = some h' := fun h' e' he' hi => (hm.claims i h').2 ⟨e', he', hi⟩
  rw [lookup_eraseAll, lookup_erase_ite]
  split
  · next hi =>
    refine ⟨(nomatch ·), ?_⟩
    rintro ⟨e', he', hi'⟩
    split at he'
    · cases he'
    · next hne =>
      have := (hclaim h e hsome hi).symm.trans (hclaim h' e' he' hi')
      exact absurd (Option.some.inj this).symm hne
  · next hi =>
    rw [hm.claims]
    split
    · next heq =>
      subst heq
      refine ⟨?_, fun ⟨_, he', _⟩ => nomatch he'⟩
      rintro ⟨e', he', hi'⟩
      rw [hsome] at he'
      exact absurd (Option.some.inj he' ▸ hi') hi
    · exact Iff.rfl

theorem Accounted.outputs_drop (i : TransactionInput) :
    (m.virtualUtxo.eraseAll ((virtualOutputs h e.tx).map (·.1))).lookup i =
      ((m.txs.erase h).lookup i.transactionId).bind fun e => publishedOutput e.tx i := by
  rw [lookup_eraseAll, lookup_erase_ite, hm.outputs]
  by_cases hid : i.transactionId = h
  · subst hid
    rw [if_pos rfl, hsome, Option.bind_some, Option.bind_none]
    split
    · rfl
    · next hmem => exact publishedOutput_eq_none.2 hmem
  · rw [if_neg hid, if_neg]
    intro hmem
    obtain ⟨⟨_, _⟩, hout, rfl⟩ := mem_map.1 hmem
    exact hid (mem_virtualOutputs.1 hout).1

end

theorem Accounted.drop (hm : Accounted m) (h : Hash32) : Accounted (m.drop h) := by
  cases hsome : m.txs.lookup h with
  | none => rwa [drop_of_none hsome]
  | some e =>
  rw [drop_of_some hsome, ← discount_single]
  have hsize := size_erase_of_lookup_some hsome
  have hle := hm.count_le
  exact {
    keyed := fun h' e' he' => by
      rw [discount_single, ← drop_of_some hsome] at he'
      exact hm.keyed h' e' (pending_of_drop he')
    count := by
      show wrapSub m.txCount 1 = size (m.txs.erase h)
      rw [hm.count, wrapSub]
      rw [u64Max] at hle
      omega
    count_le := by
      show size (m.txs.erase h) ≤ u64Max
      omega
    bytes := (congrArg (wrapSub · e.sizeBytes) hm.bytes).trans (wrapSub_total hsome)
    exMem := (congrArg (wrapSub · e.exUnitsMem) hm.exMem).trans (wrapSub_total hsome)
    exSteps := (congrArg (wrapSub · e.exUnitsSteps) hm.exSteps).trans (wrapSub_total hsome)
    refs := (congrArg (wrapSub · e.refScriptsBytes) hm.refs).trans (wrapSub_total hsome)
    fees := hm.fees_drop hsome
    claims := hm.claims_drop hsome
    outputs := hm.outputs_drop hsome }

end Drop

/-- The accounts do not depend on the queue and the edges. -/
theorem Accounted.of_eq (hm : Accounted m) (order : List Hash32)
    (tombstones : Finset Hash32) (edges : FinMap Hash32 (List Hash32)) :
    Accounted { m with order := order, orderTombstones := tombstones, dependents := edges } :=
  { hm with }

theorem Accounted.maybeCompactOrder (hm : Accounted m) : Accounted m.maybeCompactOrder := by
  rw [Mempool.maybeCompactOrder]
  split
  · exact hm.of_eq _ _ m.dependents
  · exact hm

theorem kept_accounted : Kept Accounted where
  drop _ h hm := hm.drop h
  edges m edges hm := hm.of_eq m.order m.orderTombstones edges
  compact _ hm := hm.maybeCompactOrder

/-! ## Admission -/

section Admit
variable {m : Mempool} {e : MempoolEntry} (hm : Accounted m) (hnone : m.txs.lookup e.txHash = none)
include hm hnone

theorem Accounted.fees_enter (k : FeeDensityKey) : k ∈ m.feeIndex.insert (e.feeKey e.txHash) ↔
      ∃ h e', (m.txs.insert e.txHash e).lookup h = some e' ∧ e'.feeKey h = k := by
  have hnew : ∀ b ∈ m.feeIndex, compare (e.feeKey e.txHash) b ≠ .eq := by
    intro b hb heq
    obtain ⟨h, e', he', rfl⟩ := (hm.fees b).1 hb
    have hhash : e.txHash = h := txHash_eq_of_compare heq
    rw [← hhash, hnone] at he'
    cases he'
  rw [SortedSet.mem_insert hnew, hm.fees]
  constructor
  · rintro (rfl | ⟨h, e', he', rfl⟩)
    · exact ⟨e.txHash, e, lookup_insert _, rfl⟩
    · refine ⟨h, e', ?_, rfl⟩
      rw [lookup_insert_ite, if_neg]
      · exact he'
      · rintro rfl
        rw [hnone] at he'
        cases he'
  · rintro ⟨h, e', he', rfl⟩
    rw [lookup_insert_ite] at he'
    split at he'
    · next heq =>
      obtain rfl := Option.some.inj he'
      exact .inl (by rw [heq])
    · exact .inr ⟨h, e', he', rfl⟩

theorem Accounted.claims_enter
    (hfree : ∀ i ∈ e.tx.body.inputs, m.claimedInputs.lookup i = none) (i : TransactionInput)
    (h : Hash32) :
    (m.claimedInputs.insertAll (e.tx.body.inputs.map (·, e.txHash))).lookup i = some h ↔
      ∃ e', (m.txs.insert e.txHash e).lookup h = some e' ∧ i ∈ e'.tx.body.inputs := by
  rw [lookup_insertAll_const, lookup_insert_ite]
  split
  · next hi =>
    constructor
    · rintro ⟨⟩
      exact ⟨e, if_pos rfl, hi⟩
    · rintro ⟨e', he', hi'⟩
      split at he'
      · next heq => rw [heq]
      · have := (hm.claims i h).2 ⟨e', he', hi'⟩
        rw [hfree i hi] at this
        cases this
  · next hi =>
    rw [hm.claims]
    split
    · next heq =>
      subst heq
      refine ⟨fun ⟨e', he', _⟩ => ?_, ?_⟩
      · rw [hnone] at he'
        cases he'
      · rintro ⟨e', ⟨⟩, hi'⟩
        exact absurd hi' hi
    · exact Iff.rfl

theorem Accounted.outputs_enter (i : TransactionInput) :
    (m.virtualUtxo.insertAll (virtualOutputs e.txHash e.tx)).lookup i =
      ((m.txs.insert e.txHash e).lookup i.transactionId).bind fun e => publishedOutput e.tx i := by
  rw [lookup_insertAll, hm.outputs, lookup_insert_ite]
  split_ifs with hid
  · rw [hid, hnone, Option.bind_none, Option.or_none, Option.bind_some, publishedOutput, hid]
  have hempty : (virtualOutputs e.txHash e.tx).filter (·.1 = i) = [] := by
    rw [filter_eq_nil_iff]
    rintro ⟨i', o⟩ hmem heq
    obtain rfl : i' = i := of_decide_eq_true heq
    exact hid (mem_virtualOutputs.1 hmem).1
  rw [hempty, getLast?_nil, Option.map_none, Option.none_or]

theorem Accounted.enter (hfree : ∀ i ∈ e.tx.body.inputs, m.claimedInputs.lookup i = none)
    (hcount : m.txCount < u64Max) (edges : FinMap Hash32 (List Hash32)) :
    Accounted (enter { m with
      claimedInputs := m.claimedInputs.insertAll (e.tx.body.inputs.map (·, e.txHash))
      dependents := edges } e) := by
  have hsize := size_insert_of_lookup_none hnone e
  rw [hm.count] at hcount
  -- The queue is compacted and extended on the way; the accounts are those of the plain insertions.
  have hplain : Accounted { m with
      txs := m.txs.insert e.txHash e
      virtualUtxo := m.virtualUtxo.insertAll (virtualOutputs e.txHash e.tx)
      feeIndex := m.feeIndex.insert (e.feeKey e.txHash)
      claimedInputs := m.claimedInputs.insertAll (e.tx.body.inputs.map (·, e.txHash))
      totalBytes := wrapAdd m.totalBytes e.sizeBytes
      totalExMem := wrapAdd m.totalExMem e.exUnitsMem
      totalExSteps := wrapAdd m.totalExSteps e.exUnitsSteps
      totalRefScriptsBytes := wrapAdd m.totalRefScriptsBytes e.refScriptsBytes
      txCount := wrapAdd m.txCount 1 } := {
    keyed := fun h e' he' => by
      rw [lookup_insert_ite] at he'
      split at he'
      · next heq => rw [← Option.some.inj he', heq]
      · exact hm.keyed h e' he'
    count := by
      show wrapAdd m.txCount 1 = size (m.txs.insert e.txHash e)
      rw [hm.count, hsize, wrapAdd]
      rw [u64Max] at hcount
      omega
    count_le := by
      show size (m.txs.insert e.txHash e) ≤ u64Max
      omega
    bytes := (congrArg (wrapAdd · e.sizeBytes) hm.bytes).trans (wrapAdd_total hnone e)
    exMem := (congrArg (wrapAdd · e.exUnitsMem) hm.exMem).trans (wrapAdd_total hnone e)
    exSteps := (congrArg (wrapAdd · e.exUnitsSteps) hm.exSteps).trans (wrapAdd_total hnone e)
    refs := (congrArg (wrapAdd · e.refScriptsBytes) hm.refs).trans (wrapAdd_total hnone e)
    fees := hm.fees_enter hnone
    claims := hm.claims_enter hnone hfree
    outputs := hm.outputs_enter hnone }
  unfold Mempool.enter Mempool.maybeCompactOrder pushOrder
  dsimp only
  split <;> exact hplain.of_eq _ _ edges

end Admit

/-! ## A call -/

/-- What an accepted submission has passed and what it leaves. -/
structure Added (table : Listing.Enumeration Hash32) (m : Mempool) (e : MempoolEntry)
    (m' : Mempool) : Prop where
  new : m.txs.lookup e.txHash = none
  free : ∀ i ∈ e.tx.body.inputs, m.claimedInputs.lookup i = none
  room : (m.ensureCapacity e).1 = true
  count : (m.ensureCapacity e).2.txCount < (m.ensureCapacity e).2.config.maxTransactions
  bytes : wrapAdd (m.ensureCapacity e).2.totalBytes e.sizeBytes ≤
    (m.ensureCapacity e).2.config.maxBytes
  linked : ∃ edges, linkParents table (m.ensureCapacity e).2.virtualUtxo e.txHash e.tx.body.inputs
      (m.ensureCapacity e).2.dependents = (.ok (), edges) ∧
    m' = enter { (m.ensureCapacity e).2 with
      claimedInputs := (m.ensureCapacity e).2.claimedInputs.insertAll
        (e.tx.body.inputs.map (·, e.txHash))
      dependents := edges } e

/-- What a submission can do to the mempool. -/
inductive Submitted (table : Listing.Enumeration Hash32) (m : Mempool) (e : MempoolEntry) :
    Mempool → Prop where
  /-- The transaction is pending already, or spends an input that is claimed. -/
  | unchanged : Submitted table m e m
  /-- No room was made, or not enough. -/
  | refused : Submitted table m e (m.ensureCapacity e).2
  /-- The chain of pending parents is too long: the inputs are released, some edges stay. -/
  | tooDeep {err : MempoolError} {edges : FinMap Hash32 (List Hash32)}
      (hnew : m.txs.lookup e.txHash = none)
      (hfree : ∀ i ∈ e.tx.body.inputs, m.claimedInputs.lookup i = none)
      (hlink : linkParents table (m.ensureCapacity e).2.virtualUtxo e.txHash e.tx.body.inputs
        (m.ensureCapacity e).2.dependents = (.error err, edges)) :
      Submitted table m e { (m.ensureCapacity e).2 with
        claimedInputs := ((m.ensureCapacity e).2.claimedInputs.insertAll
          (e.tx.body.inputs.map (·, e.txHash))).eraseAll e.tx.body.inputs
        dependents := edges }
  | added {m' : Mempool} (h : Added table m e m') : Submitted table m e m'

theorem submitted (table : Listing.Enumeration Hash32) (m : Mempool) (e : MempoolEntry) :
    Submitted table m e (m.addTxFull table e).2 := by
  rw [addTxFull]
  split
  · exact .unchanged
  next hnew =>
  rw [Bool.not_eq_true, Option.isSome_eq_false_iff, Option.isNone_iff_eq_none] at hnew
  split
  · exact .unchanged
  next hfree =>
  rw [findSome?_eq_none_iff] at hfree
  dsimp only
  split
  · next hroom =>
    rw [addChecked]
    split
    · exact .refused
    next hcount =>
    split
    · exact .refused
    next hbytes =>
    split
    · next hlink => exact .tooDeep hnew hfree hlink
    · next edges hlink =>
      exact .added ⟨hnew, hfree, hroom, Nat.lt_of_not_le hcount, Nat.le_of_not_lt hbytes,
        edges, hlink, rfl⟩
  · exact .refused

/-- Claiming free inputs and releasing them again. -/
theorem claim_release {claimed : FinMap TransactionInput Hash32} {inputs : List TransactionInput}
    (hfree : ∀ i ∈ inputs, claimed.lookup i = none) (h : Hash32) :
    (claimed.insertAll (inputs.map (·, h))).eraseAll inputs = claimed := by
  refine ext_lookup fun i => ?_
  rw [lookup_eraseAll, lookup_insertAll_const]
  split
  · next hi => rw [hfree i hi]
  · rfl

section
variable {m : Mempool} {e : MempoolEntry}

/-- Inputs that no pending transaction spends are not claimed when room has been made. -/
theorem Accounted.free_of_ensureCapacity (hm : Accounted m)
    (hfree : ∀ i ∈ e.tx.body.inputs, m.claimedInputs.lookup i = none) :
    ∀ i ∈ e.tx.body.inputs, (m.ensureCapacity e).2.claimedInputs.lookup i = none := by
  intro i hi
  rw [Option.eq_none_iff_forall_ne_some]
  intro h hclaimed
  have hm' := kept_accounted.byRemoval.ensureCapacity e hm
  obtain ⟨e', he', hi'⟩ := (hm'.claims i h).1 hclaimed
  have := (hm.claims i h).2 ⟨e', pending_of_ensureCapacity he', hi'⟩
  rw [hfree i hi] at this
  cases this

theorem lookup_ensureCapacity_none (hnone : m.txs.lookup h = none) :
    (m.ensureCapacity e).2.txs.lookup h = none := by
  rw [Option.eq_none_iff_forall_ne_some]
  intro e' he'
  rw [pending_of_ensureCapacity he'] at hnone
  cases hnone

theorem Accounted.addTxFull (hm : Accounted m) (table : Listing.Enumeration Hash32)
    (e : MempoolEntry) : Accounted (m.addTxFull table e).2 := by
  have hm' := kept_accounted.byRemoval.ensureCapacity e hm
  have houtcome := submitted table m e
  generalize (m.addTxFull table e).2 = m' at houtcome
  cases houtcome with
  | unchanged => exact hm
  | refused => exact hm'
  | tooDeep hnew hfree hlink =>
    rw [claim_release (hm.free_of_ensureCapacity hfree)]
    exact hm'.of_eq _ _ _
  | added h =>
    obtain ⟨edges, -, rfl⟩ := h.linked
    exact hm'.enter (lookup_ensureCapacity_none h.new) (hm.free_of_ensureCapacity h.free)
      (h.count.trans_le (m.ensureCapacity e).2.config.maxTransactions_le) edges

end

/-- Every pending transaction is in the queue. -/
def Queued (m : Mempool) : Prop := ∀ h ∈ m.txs.keys, h ∈ m.order

instance (m : Mempool) : Decidable m.Queued := Finset.decidableDforallFinset

theorem lookup_drainAll (m : Mempool) (h : Hash32) :
    m.drainAll.2.txs.lookup h = if h ∈ m.order then none else m.txs.lookup h := by
  have htxs : (m.order.foldl drainOne (m.txs, [])).1 = m.txs.eraseAll m.order := by
    refine (foldl_hom Prod.fst fun s a => ?_).symm
    rw [drainOne]
    cases ha : s.1.lookup a with
    | none => exact erase_of_lookup_none ha
    | some e => rfl
  rw [drainAll, htxs, lookup_eraseAll]

variable {m : Mempool}

theorem mem_keys_iff : h ∈ m.txs.keys ↔ ∃ e, m.txs.lookup h = some e := by
  rw [FinMap.mem_keys, Option.isSome_iff_exists]

/-- Draining a mempool whose transactions are all in the queue empties it. -/
theorem drainAll_of_queued (h : m.Queued) : m.drainAll.2 = new m.config := by
  have htxs : m.drainAll.2.txs = ∅ := by
    refine ext_lookup fun x => ?_
    rw [lookup_drainAll, lookup_empty]
    split
    · rfl
    next hx =>
    rw [Option.eq_none_iff_forall_ne_some]
    intro e he
    exact hx (h x (mem_keys_iff.2 ⟨e, he⟩))
  have : m.drainAll.2 = { txs := m.drainAll.2.txs, config := m.config } := rfl
  rw [this, htxs]
  rfl

theorem Accounted.call (hm : Accounted m) (c : Call)
    (hdrain : c = .drainAll → m.Queued) : Accounted (m.call c) := by
  cases c with
  | addTxFull table e => exact hm.addTxFull table e
  | updateCapacityFromParams size mem steps => exact { hm with }
  | drainAll =>
    rw [Mempool.call, drainAll_of_queued (hdrain rfl)]
    exact accounted_new m.config
  | clear => exact accounted_new m.config
  | _ => exact kept_accounted.call rfl hm

/-! ## Runs -/

/-- The counters are the sums over the pending transactions, and the indices hold exactly what is
theirs. -/
structure Exact (m : Mempool) : Prop where
  txCount : m.txCount = m.txs.size
  totalBytes : m.totalBytes = m.txs.total (·.sizeBytes)
  totalExMem : m.totalExMem = m.txs.total (·.exUnitsMem)
  totalExSteps : m.totalExSteps = m.txs.total (·.exUnitsSteps)
  totalRefScriptsBytes : m.totalRefScriptsBytes = m.txs.total (·.refScriptsBytes)
  feeIndex : ∀ k, k ∈ m.feeIndex ↔
    ∃ h e, m.txs.lookup h = some e ∧ FeeDensityKey.new e.fee e.sizeBytes h = k
  claimedInputs : ∀ i h, m.claimedInputs.lookup i = some h ↔
    ∃ e, m.txs.lookup h = some e ∧ i ∈ e.tx.body.inputs
  virtualUtxo : ∀ i o, m.virtualUtxo.lookup i = some o ↔
    ∃ e, m.txs.lookup i.transactionId = some e ∧ e.tx.body.outputs[i.index.toNat]? = some o

/-- What is pending fits the machine words that describe it: the sums 64 bits, the indices of the
outputs 32 bits. -/
structure Fits (txs : FinMap Hash32 MempoolEntry) : Prop where
  outputs : ∀ h e, txs.lookup h = some e → e.tx.body.outputs.length ≤ 2 ^ 32
  bytes : txs.total (·.sizeBytes) ≤ u64Max
  exMem : txs.total (·.exUnitsMem) ≤ u64Max
  exSteps : txs.total (·.exUnitsSteps) ≤ u64Max
  refs : txs.total (·.refScriptsBytes) ≤ u64Max

variable {txs txs' : FinMap Hash32 MempoolEntry}

theorem total_le_of_sub
    (h : ∀ x e, txs'.lookup x = some e → txs.lookup x = some e) : txs'.total f ≤ txs.total f := by
  refine total_le fun x => ?_
  rw [weightAt, weightAt]
  cases hx : txs'.lookup x with
  | none => exact zero_le _
  | some e => rw [h x e hx]

theorem Fits.of_sub (hfits : Fits txs)
    (h : ∀ x e, txs'.lookup x = some e → txs.lookup x = some e) : Fits txs' :=
  ⟨fun x e he => hfits.outputs x e (h x e he), (total_le_of_sub h).trans hfits.bytes,
    (total_le_of_sub h).trans hfits.exMem, (total_le_of_sub h).trans hfits.exSteps,
    (total_le_of_sub h).trans hfits.refs⟩

theorem Fits.insert_of_sub (hfits : Fits (txs.insert h e))
    (hsub : ∀ x e, txs'.lookup x = some e → txs.lookup x = some e) : Fits (txs'.insert h e) := by
  refine hfits.of_sub fun x ex hex => ?_
  rw [lookup_insert_ite] at hex ⊢
  split at hex
  · next heq => rwa [if_pos heq]
  · next hne => rw [if_neg hne, hsub x ex hex]

theorem fits_empty : Fits ∅ :=
  ⟨fun _ _ h => (nomatch h), zero_le _, zero_le _, zero_le _, zero_le _⟩

theorem kept_fits : Kept fun m => Fits m.txs where
  drop _ _ hm := hm.of_sub fun _ _ => pending_of_drop
  edges _ _ hm := hm
  compact m hm := by rwa [maybeCompactOrder_txs]

@[simp] theorem enter_txs (m : Mempool) (e : MempoolEntry) :
    (m.enter e).txs = m.txs.insert e.txHash e := by
  unfold enter pushOrder
  rw [maybeCompactOrder_txs]

/-- A submission leaves a part of what was pending, with the newcomer or without. -/
theorem lookup_addTxFull {table : Listing.Enumeration Hash32} {e' : MempoolEntry}
    (he' : (m.addTxFull table e).2.txs.lookup h = some e') :
    m.txs.lookup h = some e' ∨ m.txs.lookup e.txHash = none ∧ h = e.txHash ∧ e' = e := by
  have houtcome := submitted table m e
  generalize (m.addTxFull table e).2 = m' at houtcome he'
  cases houtcome with
  | unchanged => exact .inl he'
  | refused | tooDeep => exact .inl (pending_of_ensureCapacity he')
  | added h =>
  obtain ⟨edges, -, rfl⟩ := h.linked
  rw [enter_txs, lookup_insert_ite] at he'
  split at he'
  · next heq => exact .inr ⟨h.new, heq, (Option.some.inj he').symm⟩
  · exact .inl (pending_of_ensureCapacity he')

/-- The calls after which the accounts stay exact: a newcomer fits beside what is pending, and
draining finds every pending transaction in the queue. -/
def Safe (m : Mempool) : Call → Prop
  | .addTxFull _ e => m.txs.lookup e.txHash = none → Fits (m.txs.insert e.txHash e)
  | .drainAll => m.Queued
  | _ => True

theorem Fits.call (hm : Fits m.txs) {c : Call} (hc : m.Safe c) : Fits (m.call c).txs := by
  cases c with
  | addTxFull table e =>
    cases hnone : m.txs.lookup e.txHash with
    | none =>
      refine (hc hnone).of_sub fun x e' he' => ?_
      rw [lookup_insert_ite]
      rcases lookup_addTxFull he' with he' | ⟨_, rfl, rfl⟩
      · rw [if_neg]
        · exact he'
        · rintro rfl
          rw [hnone] at he'
          cases he'
      · exact if_pos rfl
    | some e₀ =>
      refine hm.of_sub fun x e' he' => ?_
      rcases lookup_addTxFull he' with he' | ⟨hnew, _⟩
      · exact he'
      · rw [hnone] at hnew
        cases hnew
  | updateCapacityFromParams size mem steps => exact hm
  | drainAll =>
    rw [Mempool.call, drainAll_of_queued hc]
    exact fits_empty
  | clear => exact fits_empty
  | _ => exact kept_fits.call rfl hm

theorem Accounted.exact (hm : Accounted m) (hfits : Fits m.txs) : Exact m where
  txCount := hm.count
  totalBytes := hm.bytes.trans (mod_eq_of_lt (lt_succ_of_le hfits.bytes))
  totalExMem := hm.exMem.trans (mod_eq_of_lt (lt_succ_of_le hfits.exMem))
  totalExSteps := hm.exSteps.trans (mod_eq_of_lt (lt_succ_of_le hfits.exSteps))
  totalRefScriptsBytes := hm.refs.trans (mod_eq_of_lt (lt_succ_of_le hfits.refs))
  feeIndex := hm.fees
  claimedInputs := hm.claims
  virtualUtxo i o := by
    rw [hm.outputs, Option.bind_eq_some_iff]
    refine exists_congr fun e => and_congr_right fun he => ?_
    rw [publishedOutput_eq_getElem? (hfits.outputs _ e he)]

theorem Reached.accounted {config : MempoolConfig} (h : Reached config Safe m) :
    Accounted m ∧ Fits m.txs := by
  induction h with
  | new => exact ⟨accounted_new config, fits_empty⟩
  | @call m c h hc ih =>
    refine ⟨ih.1.call c ?_, ih.2.call hc⟩
    rintro rfl
    exact hc

/-- After draining, the accounts are exact only when nothing is left. -/
theorem exact_drainAll_iff (m : Mempool) : Exact m.drainAll.2 ↔ m.Queued := by
  constructor
  · intro hexact h hkey
    obtain ⟨e, he⟩ := mem_keys_iff.1 hkey
    by_contra hmem
    have hleft : m.drainAll.2.txs.lookup h = some e := by rw [lookup_drainAll, if_neg hmem, he]
    have hpos : 0 < m.drainAll.2.txs.size := Finset.card_pos.2 ⟨h, mem_keys_iff.2 ⟨e, hleft⟩⟩
    have hzero : 0 = m.drainAll.2.txs.size := hexact.txCount
    omega
  · intro hqueued
    rw [drainAll_of_queued hqueued]
    exact (accounted_new m.config).exact fits_empty

/-- In a run of safe calls the accounts are exact at every point; and a drain, on whatever mempool,
leaves exact accounts only when it is safe. -/
theorem accounts_exact_of_safe (config : MempoolConfig) :
    (∀ m, Reached config Safe m → Exact m) ∧ ∀ m : Mempool, Exact m.drainAll.2 ↔ m.Safe .drainAll :=
  ⟨fun _ h => h.accounted.1.exact h.accounted.2, exact_drainAll_iff⟩

/-! ### A transaction that falls out of the queue

A hash that is removed and submitted again gets a second place in the queue and has its tombstone
cleared, so that one transaction can fill the queue on its own. -/

def stayer : MempoolEntry := { tx := { hash := 1 }, txHash := 1 }

def returner : MempoolEntry := { tx := { hash := 2 }, txHash := 2 }

/-- `stayer` alone is pending. -/
def waiting (queue : List Hash32) (tombstones : Finset Hash32) : Mempool :=
  { ((new {}).addTxFull byHash stayer).2 with order := queue, orderTombstones := tombstones }

/-- `stayer` and `returner` are pending. -/
def returned (queue : List Hash32) : Mempool :=
  { ((waiting [] ∅).addTxFull byHash returner).2 with order := queue }

theorem addTxFull_waiting (queue : List Hash32) {tombstones : Finset Hash32}
    (h : tombstones = ∅ ∨ tombstones = {2}) :
    ((waiting queue tombstones).addTxFull byHash returner).2 = returned
      ((if queue.length ≥ orderDequeMax then queue.tail else queue) ++ [2]) := by
  rcases h with rfl | rfl <;> rfl

theorem removeTx_returned (queue : List Hash32) :
    ((returned queue).removeTxWithReason 2 .manual).2 = waiting queue {2} := by
  have hqueue : ((returned queue).removeTxWithReason 2 .manual).2 =
      { ((returned []).removeTxWithReason 2 .manual).2 with order := queue } := rfl
  rw [hqueue]
  dsimp only
  rfl

theorem reached_waiting {n : Nat} (hn : n < orderDequeMax) :
    ∃ tombstones, (tombstones = ∅ ∨ tombstones = {2}) ∧
      Reached {} (fun _ _ => True) (waiting (1 :: replicate n 2) tombstones) := by
  induction n with
  | zero =>
    exact ⟨∅, .inl rfl, .call (c := .addTxFull byHash stayer) .new trivial⟩
  | succ n ih =>
    obtain ⟨tombstones, htomb, hreached⟩ := ih (lt_of_succ_lt hn)
    have hshort : ¬(1 :: replicate n (2 : Hash32)).length ≥ orderDequeMax := by
      rw [length_cons, length_replicate]
      omega
    have hadded := hreached.call (c := .addTxFull byHash returner) trivial
    rw [call, addTxFull_waiting _ htomb, if_neg hshort] at hadded
    have hremoved := hadded.call (c := .removeTx 2 .manual) trivial
    rw [call, removeTx_returned, cons_append, ← replicate_succ'] at hremoved
    exact ⟨{2}, .inr rfl, hremoved⟩

def heavy : MempoolEntry := { tx := { hash := 1 }, txHash := 1, exUnitsMem := u64Max }

def light : MempoolEntry := { tx := { hash := 2 }, txHash := 2, fee := 1, exUnitsMem := 1 }

/-- A queue full of one hash pushes a pending transaction out, and draining then forgets it while it
stays pending. A transaction above the limit is admitted to an empty mempool, and the sum with the
next one wraps. -/
theorem accounts_inexact :
    (∃ m, Reached {} (fun _ _ => True) m ∧
      m.txCount = 0 ∧ (m.txs.lookup 1).isSome ∧ ¬ Exact m) ∧
    ∃ m, Reached {} (fun _ _ => True) m ∧
      m.totalExMem = 0 ∧ m.txs.total (·.exUnitsMem) = 2 ^ 64 ∧ ¬ Exact m := by
  constructor
  · obtain ⟨tombstones, htomb, hreached⟩ := reached_waiting (n := orderDequeMax - 1) (by decide)
    have hfull : (1 :: replicate (orderDequeMax - 1) (2 : Hash32)).length ≥ orderDequeMax := by
      rw [length_cons, length_replicate]
      omega
    have hadded := hreached.call (c := .addTxFull byHash returner) trivial
    rw [call, addTxFull_waiting _ htomb, if_pos hfull, tail_cons] at hadded
    have hmem : (1 : Hash32) ∉ replicate (orderDequeMax - 1) (2 : Hash32) ++ [2] := by
      rw [← replicate_succ', mem_replicate]
      exact fun h => absurd h.2 (by decide)
    have hpending : ∀ queue, ((returned queue).txs.lookup 1).isSome := fun _ => rfl
    refine ⟨_, hadded.call (c := .drainAll) trivial, rfl, ?_, ?_⟩
    · rw [call, lookup_drainAll, returned, if_neg hmem]
      exact hpending []
    · rw [call, exact_drainAll_iff]
      intro hqueued
      refine hmem (hqueued 1 (mem_keys_iff.2 (Option.isSome_iff_exists.1 (hpending _))))
  · refine ⟨_, (Reached.new.call (c := .addTxFull byHash heavy) trivial).call
      (c := .addTxFull byHash light) trivial, by decide +kernel, by decide +kernel,
      fun hexact => ?_⟩
    have hsum := hexact.totalExMem
    revert hsum
    decide +kernel

/-! ### A cascade -/

/-- A transaction with one output that spends some inputs. -/
def spending (h : Hash32) (inputs : List TransactionInput) (sizeBytes : Nat := 0) :
    MempoolEntry where
  tx := { hash := h, body := {
    inputs := inputs
    outputs := [{ address := .byron ⟨[]⟩, value := .lovelace 1 }] } }
  txHash := h
  sizeBytes := sizeBytes

/-- Submit transactions one after the other. -/
def submitAll (m : Mempool) (es : List MempoolEntry) : Mempool :=
  es.foldl (fun m e => m.call (.addTxFull byHash e)) m

/-- What is pending after some submissions was pending before or is one of them. -/
theorem lookup_submitAll {e' : MempoolEntry} {es : List MempoolEntry}
    (he' : (m.submitAll es).txs.lookup h = some e') : m.txs.lookup h = some e' ∨ e' ∈ es := by
  induction es generalizing m with
  | nil => exact .inl he'
  | cons e es ih =>
    rcases ih he' with he' | hmem
    · rcases lookup_addTxFull he' with he' | ⟨-, -, rfl⟩
      · exact .inl he'
      · exact .inr mem_cons_self
    · exact .inr (mem_cons_of_mem e hmem)

/-- A run of submissions, each of which is admitted where it comes. -/
theorem reached_submitted {config : MempoolConfig} {P : Mempool → Call → Prop}
    {es : List MempoolEntry} (hadmitted : ∀ i (hi : i < es.length),
      P ((new config).submitAll (es.take i)) (.addTxFull byHash es[i])) :
    Reached config P ((new config).submitAll es) := by
  induction es using List.reverseRecOn with
  | nil => exact .new
  | append_singleton es e ih =>
    rw [submitAll, foldl_concat]
    refine .call (ih fun i hi => ?_) ?_
    · have hi' := hadmitted i (by rw [length_append]; omega)
      rwa [take_append_of_le_length hi.le, getElem_append_left hi] at hi'
    · have hlast := hadmitted es.length (by simp)
      simp only [take_left, getElem_concat_length] at hlast
      exact hlast

theorem fits_submitAll {config : MempoolConfig} {es : List MempoolEntry}
    (hout : ∀ e ∈ es, e.tx.body.outputs.length ≤ 2 ^ 32) {i : Nat} (hi : i < es.length)
    (htotals : ∀ f ∈ [MempoolEntry.sizeBytes, MempoolEntry.exUnitsMem, MempoolEntry.exUnitsSteps,
        MempoolEntry.refScriptsBytes],
      FinMap.total f (((new config).submitAll (es.take i)).txs.insert es[i].txHash es[i]) ≤ u64Max) :
    Fits (((new config).submitAll (es.take i)).txs.insert es[i].txHash es[i]) := by
  simp only [forall_mem_cons, not_mem_nil, false_imp_iff, implies_true, and_true] at htotals
  refine ⟨fun h e' he' => hout e' ?_, htotals.1, htotals.2.1, htotals.2.2.1, htotals.2.2.2⟩
  rw [lookup_insert_ite] at he'
  split at he'
  · cases he'
    exact getElem_mem hi
  · exact mem_of_mem_take ((lookup_submitAll he').resolve_left nofun)

/-- Transaction 2 spends an output of transaction 1; transaction 3 stands beside them. -/
def family : List MempoolEntry :=
  [spending 1 [⟨9, 0⟩] 300, spending 2 [⟨1, 0⟩] 200, spending 3 [⟨8, 0⟩] 100]

/-- Transaction 1 is removed, transaction 2 goes with it, and the accounts are those of 3. -/
theorem cascade_exact :
    let m := ((new {}).submitAll family).call (.removeTx 1 .manual)
    ((new {}).submitAll family).totalBytes = 600 ∧ m.txs.keys = {3} ∧ m.totalBytes = 100 ∧
      Exact m := by
  have htotals : ∀ i (hi : i < family.length), ∀ f ∈ [MempoolEntry.sizeBytes,
      MempoolEntry.exUnitsMem, MempoolEntry.exUnitsSteps, MempoolEntry.refScriptsBytes],
      FinMap.total f (((new {}).submitAll (family.take i)).txs.insert family[i].txHash family[i]) ≤
        u64Max := by decide +kernel
  have hreached : Reached {} Safe ((new {}).submitAll family) :=
    reached_submitted fun i hi _ => fits_submitAll (by decide) hi (htotals i hi)
  exact ⟨by decide +kernel, by decide +kernel, by decide +kernel,
    (accounts_exact_of_safe {}).1 _ (hreached.call (c := .removeTx 1 .manual) trivial)⟩

/-- No input is spent twice: while every drain finds all that is pending in its queue, different
pending transactions have no input in common. -/
theorem no_double_spend {config : MempoolConfig} {a b : Hash32} {e e' : MempoolEntry}
    (h : Reached config (fun m c => c = .drainAll → m.Queued) m) (ha : m.txs.lookup a = some e)
    (hb : m.txs.lookup b = some e') (hab : a ≠ b) :
    e.tx.body.inputs.Disjoint e'.tx.body.inputs := by
  have hm : Accounted m := by
    clear ha hb
    induction h with
    | new => exact accounted_new config
    | call _ hc ih => exact ih.call _ hc
  intro i hi hi'
  have hclaim := (hm.claims i a).2 ⟨e, ha, hi⟩
  exact hab (Option.some.inj (hclaim.symm.trans ((hm.claims i b).2 ⟨e', hb, hi'⟩)))

def ownInput (hash : Hash32) : MempoolEntry :=
  { tx := { hash, body := { inputs := [⟨hash, 0⟩] } }, txHash := hash }

theorem ownInput_disjoint :
    (ownInput 1).tx.body.inputs.Disjoint (ownInput 2).tx.body.inputs :=
  no_double_spend (.call (c := .addTxFull byHash (ownInput 2))
    (.call (c := .addTxFull byHash (ownInput 1)) (.new : Reached {} _ _) nofun) nofun)
    (a := 1) (b := 2) rfl rfl (by decide)

end Mempool

end Dugite
