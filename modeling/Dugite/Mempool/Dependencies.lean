import Dugite.Mempool.Accounting

/-!
# Pending transactions and their parents

A pending transaction may spend an output of another pending one. The mempool keeps an edge from the
parent to the child, and a removal that is not by mining follows the edges. `Linked` is what makes
that enough: every spending input of an unconfirmed transaction is an output of a pending one, with
an edge. There are no edges for reference inputs, and none for a newcomer whose parent is evicted to
make room for it.
-/

namespace Dugite

open Cascade List FinMap Option

namespace Mempool

/-! ## What a cascade leaves -/

variable (m : Mempool) (h : Hash32)

@[simp] theorem drop_dependents : (m.drop h).dependents = m.dependents := by
  cases hlookup : m.txs.lookup h with
  | none => rw [drop_of_none hlookup]
  | some e => rw [drop_of_some hlookup]; rfl

@[simp] theorem maybeCompactOrder_dependents : m.maybeCompactOrder.dependents = m.dependents := by
  rw [maybeCompactOrder]
  split <;> rfl

theorem foldl_drop_txs (hs : List Hash32) (m : Mempool) :
    (hs.foldl drop m).txs = m.txs.eraseAll hs :=
  (foldl_hom txs fun m h => (drop_txs m h).symm).symm

theorem cascadeDrop_dependents : (m.cascadeDrop h).dependents = (cascade m.dependents h).1 := by
  refine foldlRecOn (motive := fun m' : Mempool =>
    m'.dependents = (cascade m.dependents h).1) _ _ rfl fun m' hm h' _ => ?_
  rw [drop_dependents, hm]

theorem lookup_cascadeDrop (k : Hash32) : (m.cascadeDrop h).txs.lookup k =
      if k = h ∨ k ∈ (cascade m.dependents h).2 then none else m.txs.lookup k := by
  rw [cascadeDrop, foldl_drop_txs, lookup_eraseAll, drop_txs, lookup_erase_ite]
  by_cases hk : k = h <;> by_cases hk' : k ∈ (cascade m.dependents h).2 <;> simp [hk, hk']

/-! ## The invariant -/

/-- Every pending transaction hangs on confirmed or pending ones. -/
structure Linked (confirmed : Finset Hash32) (m : Mempool) : Prop where
  accounted : Accounted m
  spends : ∀ h e, m.txs.lookup h = some e → ∀ i ∈ e.tx.body.inputs, i.transactionId ∉ confirmed →
    (m.virtualUtxo.lookup i).isSome ∧ h ∈ Cascade.children m.dependents i.transactionId
  references : ∀ h e, m.txs.lookup h = some e →
    ∀ i ∈ e.tx.body.referenceInputs, i.transactionId ∈ confirmed

variable {confirmed : Finset Hash32} {m : Mempool} {i : TransactionInput}
  {table : Listing.Enumeration Hash32} {e : MempoolEntry}

/-- What the virtual UTxO shows is shown for as long as its transaction is pending. -/
theorem Accounted.isSome_of_pending {m' : Mempool} (hm : Accounted m) (hm' : Accounted m')
    (hpending : m'.txs.lookup i.transactionId = m.txs.lookup i.transactionId)
    (h : (m.virtualUtxo.lookup i).isSome) : (m'.virtualUtxo.lookup i).isSome := by
  rw [hm'.outputs, hpending, ← hm.outputs]
  exact h

theorem Linked.cascadeDrop (hm : Linked confirmed m) (x : Hash32) :
    Linked confirmed (m.cascadeDrop x) := by
  have haccounted : Accounted (m.cascadeDrop x) :=
    kept_accounted.foldl_drop _ (kept_accounted.edges _ _ (hm.accounted.drop x))
  have htaken := cascade_spec m.dependents x
  have hstays : ∀ {h e}, (m.cascadeDrop x).txs.lookup h = some e →
      ¬(h = x ∨ h ∈ (cascade m.dependents x).2) ∧ m.txs.lookup h = some e := by
    intro h e he
    rw [lookup_cascadeDrop] at he
    split at he
    · cases he
    · next hout => exact ⟨hout, he⟩
  refine ⟨haccounted, fun h e he i hi hunconfirmed => ?_, fun h e he => ?_⟩
  · obtain ⟨hout, he⟩ := hstays he
    obtain ⟨hshown, hedge⟩ := hm.spends h e he i hi hunconfirmed
    -- The parent was not taken, or the cascade would have come here.
    have hparent : ¬(i.transactionId = x ∨ i.transactionId ∈ (cascade m.dependents x).2) :=
      fun hp => hout (.inr (htaken.closed _ hp h hedge))
    refine ⟨hm.accounted.isSome_of_pending haccounted ?_ hshown, ?_⟩
    · rw [lookup_cascadeDrop, if_neg hparent]
    · have hsame : children (cascade m.dependents x).1 i.transactionId =
          children m.dependents i.transactionId :=
        children_of_lookup (by rw [htaken.left_eq, if_neg hparent])
      rwa [cascadeDrop_dependents, hsame]
  · exact hm.references h e (hstays he).2

theorem Linked.maybeCompactOrder (hm : Linked confirmed m) :
    Linked confirmed m.maybeCompactOrder := by
  have haccounted := hm.accounted.maybeCompactOrder
  refine ⟨haccounted, fun h e he i hi hunconfirmed => ?_, fun h e he => ?_⟩
  · rw [maybeCompactOrder_txs] at he
    obtain ⟨hshown, hedge⟩ := hm.spends h e he i hi hunconfirmed
    rw [maybeCompactOrder_dependents]
    exact ⟨hm.accounted.isSome_of_pending haccounted (by rw [maybeCompactOrder_txs]) hshown, hedge⟩
  · rw [maybeCompactOrder_txs] at he
    exact hm.references h e he

theorem keptByRemoval_linked : KeptByRemoval (Linked confirmed) where
  remove m h reason hreason hm := by
    cases hlookup : m.txs.lookup h with
    | none => rwa [removeTxWithReason_of_none hlookup]
    | some e =>
      rw [removeTxWithReason_eq hlookup hreason]
      exact (hm.cascadeDrop h).maybeCompactOrder
  compact _ hm := hm.maybeCompactOrder

/-- A mined transaction leaves its children behind: they hang on a confirmed one. -/
theorem Linked.mined (hm : Linked confirmed m) {x : Hash32} (hx : x ∈ confirmed) :
    Linked confirmed (m.removeTxWithReason x .mined).2 := by
  cases hlookup : m.txs.lookup x with
  | none => rwa [removeTxWithReason_of_none hlookup]
  | some ex =>
  rw [removeTxWithReason_mined hlookup]
  have haccounted : Accounted { m.drop x with dependents := m.dependents.erase x } :=
    kept_accounted.edges _ _ (hm.accounted.drop x)
  have hlookup : ∀ h, h ≠ x → (m.drop x).txs.lookup h = m.txs.lookup h := fun h hne => by
    rw [drop_txs, Finmap.lookup_erase_ne hne]
  refine ⟨haccounted, fun h e he i hi hunconfirmed => ?_, fun h e he => ?_⟩
  · obtain ⟨hshown, hedge⟩ := hm.spends h e (pending_of_drop he) i hi hunconfirmed
    have hparent : i.transactionId ≠ x := fun heq => hunconfirmed (heq ▸ hx)
    refine ⟨hm.accounted.isSome_of_pending haccounted (hlookup _ hparent) hshown, ?_⟩
    rwa [children_of_lookup (Finmap.lookup_erase_ne hparent)]
  · exact hm.references h e (pending_of_drop he)

/-! ## Submission -/

/-- Linking only adds edges, behind those that were there. -/
theorem children_prefix_linkParents (table : Listing.Enumeration Hash32)
    (virtualUtxo : FinMap TransactionInput TransactionOutput) (h : Hash32)
    (inputs : List TransactionInput) (edges : FinMap Hash32 (List Hash32)) (q : Hash32) :
    children edges q <+:
      children (linkParents table virtualUtxo h inputs edges).2 q := by
  induction inputs generalizing edges with
  | nil => exact prefix_rfl
  | cons i inputs ih =>
    rw [linkParents]
    split
    · split
      · exact prefix_rfl
      · refine List.IsPrefix.trans ?_ (ih _)
        rw [children, children, lookup_insert_ite]
        split
        · next heq => exact heq ▸ prefix_append _ _
        · exact prefix_rfl
    · exact ih edges

/-- A newcomer that is linked has an edge from each pending parent. -/
theorem mem_children_linkParents
    {virtualUtxo : FinMap TransactionInput TransactionOutput} {h : Hash32}
    {inputs : List TransactionInput} {edges edges' : FinMap Hash32 (List Hash32)}
    (hlink : linkParents table virtualUtxo h inputs edges = (.ok (), edges'))
    (hi : i ∈ inputs) (hshown : (virtualUtxo.lookup i).isSome)
    (hne : i.transactionId ≠ h) : h ∈ children edges' i.transactionId := by
  induction inputs generalizing edges with
  | nil => cases hi
  | cons a inputs ih =>
    rw [linkParents] at hlink
    split at hlink
    · split at hlink
      · cases hlink
      rcases mem_cons.1 hi with rfl | hi
      · have hsub := children_prefix_linkParents table virtualUtxo h inputs
          (edges.insert i.transactionId (children edges i.transactionId ++ [h]))
          i.transactionId
        rw [hlink] at hsub
        refine hsub.subset ?_
        rw [children, Finmap.lookup_insert]
        exact mem_append_right _ (mem_singleton_self h)
      · exact ih hlink hi
    · next hcond =>
      rcases mem_cons.1 hi with rfl | hi
      · exact absurd ⟨hshown, hne⟩ hcond
      · exact ih hlink hi

theorem ensureCapacity_of_room (h : m.needsEviction e = false) :
    m.ensureCapacity e = (true, m) := by
  rw [ensureCapacity]
  cases m.txs.size with
  | zero => rfl
  | succ n => rw [evictLoop, h]; rfl

@[simp] theorem maybeCompactOrder_virtualUtxo :
    m.maybeCompactOrder.virtualUtxo = m.virtualUtxo := by
  rw [maybeCompactOrder]
  split <;> rfl

@[simp] theorem enter_dependents (e : MempoolEntry) : (m.enter e).dependents = m.dependents := by
  unfold enter pushOrder
  rw [maybeCompactOrder_dependents]

@[simp] theorem enter_virtualUtxo (e : MempoolEntry) :
    (m.enter e).virtualUtxo = m.virtualUtxo.insertAll (virtualOutputs e.txHash e.tx) := by
  unfold enter pushOrder
  rw [maybeCompactOrder_virtualUtxo]

/-! ## The mempool beside the chain -/

/-- A mempool, the transactions on the chain, and the outputs on the chain that are unspent. -/
structure World where
  mempool : Mempool
  confirmed : Finset Hash32
  utxo : Finset TransactionInput
  utxo_confirmed : ∀ i ∈ utxo, i.transactionId ∈ confirmed

namespace World

/-- The inputs a transaction names, to spend or to read. -/
def named (e : MempoolEntry) : List TransactionInput :=
  e.tx.body.inputs ++ e.tx.body.referenceInputs

/-- The transaction is valid against the confirmed and the virtual UTxO, as far as its inputs go. -/
def Valid (w : World) (e : MempoolEntry) : Prop :=
  ∀ i ∈ named e, i ∈ w.utxo ∨ (w.mempool.virtualUtxo.lookup i).isSome

instance (w : World) (e : MempoolEntry) : Decidable (w.Valid e) := decidableBAll _ _

/-- Submissions of valid transactions that `P` admits, removals, sweeps, blocks. -/
inductive Reached (config : MempoolConfig) (P : World → MempoolEntry → Prop) : World → Prop where
  | start (confirmed : Finset Hash32) (utxo : Finset TransactionInput)
      (h : ∀ i ∈ utxo, i.transactionId ∈ confirmed) :
      Reached config P ⟨.new config, confirmed, utxo, h⟩
  | submit {w : World} (h : Reached config P w) (table : Listing.Enumeration Hash32)
      (e : MempoolEntry) (hvalid : w.Valid e) (hP : P w e) :
      Reached config P { w with mempool := (w.mempool.addTxFull table e).2 }
  | removed {w : World} (h : Reached config P w) (x : Hash32) (reason : MempoolRemoveReason)
      (hreason : reason ≠ .mined) :
      Reached config P { w with mempool := (w.mempool.removeTxWithReason x reason).2 }
  | mined {w : World} (h : Reached config P w) (x : Hash32) (hx : x ∈ w.confirmed) :
      Reached config P { w with mempool := (w.mempool.removeTxWithReason x .mined).2 }
  | expired {w : World} (h : Reached config P w) (table : Listing.Enumeration Hash32) (slot : Nat) :
      Reached config P { w with mempool := (w.mempool.evictExpired table slot).2 }
  | conflicted {w : World} (h : Reached config P w) (table : Listing.Enumeration Hash32)
      (consumed : Finset TransactionInput) :
      Reached config P { w with mempool := (w.mempool.revalidateAgainstInputs table consumed).2 }
  | revalidated {w : World} (h : Reached config P w)
      (isValid : List Transaction → Transaction → Bool) :
      Reached config P { w with mempool := (w.mempool.revalidateAll isValid).2 }
  | block {w : World} (h : Reached config P w) (confirmed : Finset Hash32)
      (utxo : Finset TransactionInput) (hutxo : ∀ i ∈ utxo, i.transactionId ∈ confirmed)
      (hgrow : w.confirmed ⊆ confirmed) :
      Reached config P ⟨w.mempool, confirmed, utxo, hutxo⟩

/-- An input of a pending transaction that names an unconfirmed one names an output of a pending
one. -/
def NoDangling (w : World) : Prop :=
  ∀ h e, w.mempool.txs.lookup h = some e → ∀ i ∈ named e, i.transactionId ∉ w.confirmed →
    ∃ p, w.mempool.txs.lookup i.transactionId = some p ∧ i.index.toNat < p.tx.body.outputs.length

/-- What the transaction reads is on the chain; and so is what it spends, unless there is room for
it as it comes. -/
def Anchored (w : World) (e : MempoolEntry) : Prop :=
  (∀ i ∈ e.tx.body.referenceInputs, i ∈ w.utxo) ∧
    (w.mempool.needsEviction e = true → ∀ i ∈ e.tx.body.inputs, i ∈ w.utxo)

instance (w : World) (e : MempoolEntry) : Decidable (w.Anchored e) := instDecidableAnd

variable {w : World}

/-- A valid newcomer hangs on confirmed transactions, or on pending ones to which it is linked. -/
theorem linked_admitted
    (hm : Linked w.confirmed w.mempool) (hvalid : w.Valid e) (hanchored : w.Anchored e)
    (hnew : w.mempool.txs.lookup e.txHash = none) {edges : FinMap Hash32 (List Hash32)}
    (hlink : linkParents table (w.mempool.ensureCapacity e).2.virtualUtxo e.txHash
      e.tx.body.inputs (w.mempool.ensureCapacity e).2.dependents = (.ok (), edges))
    (hi : i ∈ e.tx.body.inputs) (hunconfirmed : i.transactionId ∉ w.confirmed) :
    ((w.mempool.ensureCapacity e).2.virtualUtxo.lookup i).isSome ∧
      e.txHash ∈ children edges i.transactionId := by
  have hout : i ∉ w.utxo := fun h => hunconfirmed (w.utxo_confirmed i h)
  have hshown := (hvalid i (mem_append_left _ hi)).resolve_left hout
  have hroom := Bool.eq_false_iff.2 fun h => hout (hanchored.2 h i hi)
  rw [ensureCapacity_of_room hroom] at hlink ⊢
  have hne : i.transactionId ≠ e.txHash := by
    intro heq
    rw [hm.accounted.outputs, heq, hnew] at hshown
    cases hshown
  exact ⟨hshown, mem_children_linkParents hlink hi hshown hne⟩

theorem linked_submit (table : Listing.Enumeration Hash32)
    (hm : Linked w.confirmed w.mempool) (hvalid : w.Valid e) (hanchored : w.Anchored e) :
    Linked w.confirmed (w.mempool.addTxFull table e).2 := by
  have hm' := keptByRemoval_linked.ensureCapacity e hm
  have haccounted := hm.accounted.addTxFull table e
  have houtcome := submitted table w.mempool e
  generalize (w.mempool.addTxFull table e).2 = m' at houtcome haccounted
  cases houtcome with
  | unchanged => exact hm
  | refused => exact hm'
  | tooDeep hnew hfree hlink =>
    refine ⟨haccounted, fun h e' he' i hi hout => ?_, hm'.references⟩
    obtain ⟨hshown, hedge⟩ := hm'.spends h e' he' i hi hout
    have hsub := children_prefix_linkParents table (w.mempool.ensureCapacity e).2.virtualUtxo
      e.txHash e.tx.body.inputs (w.mempool.ensureCapacity e).2.dependents i.transactionId
    rw [hlink] at hsub
    exact ⟨hshown, hsub.subset hedge⟩
  | added hadded =>
    obtain ⟨edges, hlink, rfl⟩ := hadded.linked
    have hsub := fun p => children_prefix_linkParents table
      (w.mempool.ensureCapacity e).2.virtualUtxo e.txHash e.tx.body.inputs
      (w.mempool.ensureCapacity e).2.dependents p
    rw [hlink] at hsub
    refine ⟨haccounted, fun h e' he' i hi hout => ?_, fun h e' he' i hi => ?_⟩
    · rw [enter_txs, lookup_insert_ite] at he'
      have hkey : ((w.mempool.ensureCapacity e).2.virtualUtxo.lookup i).isSome ∧
          h ∈ children edges i.transactionId := by
        split at he'
        · next heq =>
          obtain rfl := some.inj he'
          rw [heq]
          exact linked_admitted hm hvalid hanchored hadded.new hlink hi hout
        · exact (hm'.spends h e' he' i hi hout).imp_right fun h => (hsub _).subset h
      refine ⟨?_, by rw [enter_dependents]; exact hkey.2⟩
      rw [enter_virtualUtxo, lookup_insertAll, isSome_or, hkey.1, Bool.or_true]
    · rw [enter_txs, lookup_insert_ite] at he'
      split at he'
      · obtain rfl := some.inj he'
        exact w.utxo_confirmed i (hanchored.1 i hi)
      · exact hm'.references h e' he' i hi

theorem Reached.linked {config : MempoolConfig} (h : Reached config Anchored w) :
    Linked w.confirmed w.mempool := by
  induction h with
  | start => exact ⟨accounted_new config, fun _ _ h => (nomatch h), fun _ _ h => (nomatch h)⟩
  | submit _ table e hvalid hanchored ih => exact linked_submit table ih hvalid hanchored
  | removed _ x reason hreason ih => exact keptByRemoval_linked.remove _ x reason hreason ih
  | mined _ x hx ih => exact ih.mined hx
  | expired _ table slot ih => exact keptByRemoval_linked.evictExpired table slot ih
  | conflicted _ table consumed ih =>
    exact keptByRemoval_linked.revalidateAgainstInputs table consumed ih
  | revalidated _ isValid ih => exact keptByRemoval_linked.revalidateAll isValid ih
  | block _ confirmed utxo hutxo hgrow ih =>
    exact ⟨ih.accounted, fun x e he i hi hout => ih.spends x e he i hi fun hin => hout (hgrow hin),
      fun x e he i hi => hgrow (ih.references x e he i hi)⟩

theorem Linked.noDangling (hm : Linked w.confirmed w.mempool) : w.NoDangling := by
  intro h e he i hi hout
  rcases mem_append.1 hi with hi | hi
  · obtain ⟨hshown, -⟩ := hm.spends h e he i hi hout
    rw [hm.accounted.outputs] at hshown
    obtain ⟨o, ho⟩ := isSome_iff_exists.1 hshown
    obtain ⟨p, hp, ho⟩ := bind_eq_some_iff.1 ho
    refine ⟨p, hp, ?_⟩
    obtain ⟨-, n, hn, hindex⟩ := mem_virtualOutputs.1 (mem_of_publishedOutput ho)
    rw [← hindex, BitVec.toNat_ofNat]
    exact Nat.lt_of_le_of_lt (Nat.mod_le _ _) (List.getElem?_eq_some_iff.1 hn).1
  · exact absurd (hm.references h e he i hi) hout

/-- When every submission is anchored, no pending transaction dangles. -/
theorem noDangling_of_anchored {config : MempoolConfig} {w : World}
    (h : Reached config Anchored w) : w.NoDangling :=
  Linked.noDangling h.linked

/-! ### A parent, a child that spends its output, and a reader of it -/

def parent : MempoolEntry where
  tx := { hash := 1, body := {
    inputs := [⟨9, 0⟩]
    outputs := [{ address := .byron ⟨[]⟩, value := .lovelace 1 }] } }
  txHash := 1

def child : MempoolEntry where
  tx := { hash := 2, body := { inputs := [⟨1, 0⟩] } }
  txHash := 2
  fee := 1

def reader : MempoolEntry where
  tx := { hash := 3, body := { inputs := [⟨9, 1⟩], referenceInputs := [⟨1, 0⟩] } }
  txHash := 3

/-- Transaction 9 is on the chain, with two unspent outputs. -/
def genesis (config : MempoolConfig) : World := ⟨.new config, {9}, {⟨9, 0⟩, ⟨9, 1⟩}, by decide⟩

def submit (w : World) (e : MempoolEntry) : World :=
  { w with mempool := (w.mempool.addTxFull byHash e).2 }

theorem child_pending :
    ((genesis {}).submit parent |>.submit child).NoDangling ∧
      (((genesis {}).submit parent).submit child).mempool.txs.keys = {1, 2} :=
  ⟨noDangling_of_anchored (.submit (.submit (.start {9} {⟨9, 0⟩, ⟨9, 1⟩} (by decide)) byHash parent
    (by decide +kernel) (by decide +kernel)) byHash child (by decide +kernel) (by decide +kernel)),
    by decide +kernel⟩

/-- A child with a higher fee has its own parent evicted when the mempool is full; and a transaction
that reads an output stays when the one that makes it is removed. -/
theorem dangling :
    (∃ w, Reached { maxTransactions := 1 } (fun _ _ => True) w ∧ ¬w.NoDangling) ∧
      ∃ w, Reached {} (fun _ _ => True) w ∧ ¬w.NoDangling := by
  constructor
  · refine ⟨((genesis { maxTransactions := 1 }).submit parent).submit child,
      .submit (.submit (.start {9} {⟨9, 0⟩, ⟨9, 1⟩} (by decide)) byHash parent (by decide +kernel)
        trivial) byHash child (by decide +kernel) trivial, fun hno => ?_⟩
    obtain ⟨p, hp, -⟩ := hno 2 child rfl ⟨1, 0⟩ (by decide) (by decide)
    have hgone : ((((genesis { maxTransactions := 1 }).submit parent).submit
      child).mempool.txs.lookup 1).isNone := by decide +kernel
    rw [hp] at hgone
    cases hgone
  · refine ⟨{ ((genesis {}).submit parent).submit reader with
        mempool := ((((genesis {}).submit parent).submit reader).mempool.removeTxWithReason 1
          .manual).2 },
      .removed (.submit (.submit (.start {9} {⟨9, 0⟩, ⟨9, 1⟩} (by decide)) byHash parent
        (by decide +kernel) trivial) byHash reader (by decide +kernel) trivial) 1 .manual
        (by decide), fun hno => ?_⟩
    obtain ⟨p, hp, -⟩ := hno 3 reader rfl ⟨1, 0⟩ (by decide) (by decide)
    have hgone : (((((genesis {}).submit parent).submit reader).mempool.removeTxWithReason 1
      .manual).2.txs.lookup 1).isNone := by decide +kernel
    rw [hp] at hgone
    cases hgone

end World

end Mempool

end Dugite
