import Dugite.Ledger.Utxo

/-!
# Every transaction records what it does to the UTxO set

`Effect ids u d u'`: the change from `u` to `u'` is recorded in `d`, and outputs were created only
under the transaction ids `ids`. Each of the paths that apply a transaction has such an effect when
its ids are new to the set (`Fresh`), whatever its inputs are: missing, listed twice, created by a
sibling, or its own outputs. Effects compose over the transactions of a block.
-/

namespace Dugite

open Journal Checks FinMap

/-- No output of the set belongs to one of these transactions. -/
def Fresh (ids : List Hash32) (u : UtxoSet) : Prop :=
  ∀ k : TransactionInput, k.transactionId ∈ ids → u.lookup k = none

structure Effect (ids : List Hash32) (u : UtxoSet) (d : UtxoDiff) (u' : UtxoSet) : Prop where
  recorded : Recorded u d u'
  owned : ∀ k ∈ d.inserted, k.transactionId ∈ ids

theorem Effect.nil (ids : List Hash32) (u : UtxoSet) : Effect ids u {} u where
  recorded := ⟨fun k hk => (nomatch hk), fun e he => (nomatch he), fun k _ => .inl rfl⟩
  owned := by intro k hk; cases hk

section Effects
variable {ids ids' : List Hash32} {u u' : UtxoSet} {d d' : UtxoDiff} {tx : Transaction}
  {overlay : Overlay} {acc : UtxoSet × UtxoDiff}
  {spent : List (TransactionInput × TransactionOutput)} {utxo utxo' : UtxoSubState}
  {e : TransactionInput × TransactionOutput} {inputs : List TransactionInput}

theorem Effect.mono (h : Effect ids u d u') (hsub : ids ⊆ ids') : Effect ids' u d u' where
  recorded := h.recorded
  owned := fun k hk => hsub (h.owned k hk)

/-- Ids that a step does not use stay fresh. -/
theorem Effect.fresh (h : Effect ids u d u') (hdisj : ids.Disjoint ids') (hfresh : Fresh ids' u) :
    Fresh ids' u' := by
  intro k hk
  have hnew : k ∉ d.inserted := fun hins => hdisj (h.owned k hins) hk
  rcases h.recorded.frame k hnew with hframe | ⟨hnone, -⟩
  · exact hframe.trans (hfresh k hk)
  · exact hnone

/-- Effects in sequence. -/
theorem Effect.append {u'' : UtxoSet}
    (h : Effect ids u d u') (h' : Effect ids' u' d' u'') (hfresh : Fresh ids' u) :
    Effect (ids ++ ids') u (d.merge d') u'' where
  recorded := h.recorded.append h'.recorded fun k hk => hfresh k (h'.owned k hk)
  owned := by
    intro k hk
    simp only [inserted, merge, List.map_append, List.mem_append] at hk
    rcases hk with hk | hk
    · exact List.mem_append_left _ (h.owned k hk)
    · exact List.mem_append_right _ (h'.owned k hk)

/-! ## Creating outputs -/

theorem transactionId_of_mem_keyedOutputs {txId : Hash32} {outputs : List TransactionOutput}
    (he : e ∈ keyedOutputs txId outputs) :
    e.1.transactionId = txId := by
  obtain ⟨x, -, rfl⟩ := List.mem_map.1 he
  rfl

theorem outputs_keyedOutputs (txId : Hash32) (outputs : List TransactionOutput) :
    (keyedOutputs txId outputs).map (·.2) = outputs := by
  rw [keyedOutputs, List.map_map]
  exact List.zipIdx_map_fst 0 outputs

theorem createOutputs_eq (created : List (TransactionInput × TransactionOutput))
    (acc : UtxoSet × UtxoDiff) :
    createOutputs created acc =
      (acc.1.insertAll created, ⟨acc.2.inserts ++ created, acc.2.deletes⟩) := by
  induction created generalizing acc with
  | nil => simp [createOutputs, FinMap.insertAll]
  | cons e created ih =>
    have hrest := ih (acc.1.insert e.1 e.2, acc.2.recordInsert e.1 e.2)
    refine hrest.trans ?_
    simp [recordInsert, FinMap.insertAll]

/-- Creating outputs under fresh ids keeps an effect. -/
theorem Effect.createOutputs (h : Effect ids u d u') (hfresh : Fresh ids u)
    {created : List (TransactionInput × TransactionOutput)}
    (hids : ∀ e ∈ created, e.1.transactionId ∈ ids) :
    Effect ids u (Dugite.createOutputs created (u', d)).2
      (Dugite.createOutputs created (u', d)).1 := by
  induction created generalizing u' d with
  | nil => exact h
  | cons e created ih =>
    have he := hids e List.mem_cons_self
    refine ih ⟨h.recorded.insert (hfresh e.1 he), ?_⟩ fun e' he' =>
      hids e' (List.mem_cons_of_mem _ he')
    intro k hk
    simp only [inserted, recordInsert, List.map_append, List.mem_append, List.map_cons,
      List.map_nil, List.mem_singleton] at hk
    rcases hk with hk | rfl
    · exact h.owned k hk
    · exact he

/-! ## Spending inputs -/

theorem Effect.consumeInputs (h : Effect ids u d u') (inputs : List TransactionInput) :
    Effect ids u (Dugite.consumeInputs inputs (u', d)).2
      (Dugite.consumeInputs inputs (u', d)).1 := by
  induction inputs generalizing u' d with
  | nil => exact h
  | cons input inputs ih =>
    rw [Dugite.consumeInputs, List.foldl_cons]
    cases hlook : u'.lookup input with
    | some spent => exact ih ⟨h.recorded.delete hlook, h.owned⟩
    | none => exact ih ⟨(erase_of_lookup_none hlook).symm ▸ h.recorded, h.owned⟩

theorem lookup_removeInputs (inputs : List TransactionInput) (u : UtxoSet) (k : TransactionInput) :
    (removeInputs inputs u).lookup k = if k ∈ inputs then none else u.lookup k := by
  have herase : (fun (u : UtxoSet) input => if (u.lookup input).isSome then u.erase input else u) =
      fun u input => u.erase input := by
    funext u input
    cases hlook : u.lookup input with
    | some v => rfl
    | none => exact (erase_of_lookup_none hlook).symm
  rw [removeInputs, herase]
  exact FinMap.lookup_eraseAll inputs u k

/-- Removing inputs takes the weights of their outputs out of the set. -/
theorem total_removeInputs (f : TransactionOutput → Nat) (inputs : List TransactionInput)
    (u : UtxoSet) : (removeInputs inputs u).total f + ∑ k ∈ inputs.toFinset, u.weightAt f k =
      u.total f := by
  refine total_of_cleared fun k => ?_
  rw [weightAt, lookup_removeInputs, weightAt]
  simp only [List.mem_toFinset]
  split <;> rfl

theorem mem_spentOutputs : e ∈ spentOutputs inputs u ↔ e.1 ∈ inputs ∧ u.lookup e.1 = some e.2 := by
  obtain ⟨k, v⟩ := e
  simp only [spentOutputs, List.mem_filterMap, List.mem_eraseDups, Option.map_eq_some_iff,
    Prod.mk.injEq]
  constructor
  · rintro ⟨input, hin, output, hlook, rfl, rfl⟩
    exact ⟨hin, hlook⟩
  · rintro ⟨hin, hlook⟩
    exact ⟨k, hin, v, hlook, rfl, rfl⟩

theorem foldl_recordDelete (spent : List (TransactionInput × TransactionOutput)) (d : UtxoDiff) :
    spent.foldl (fun d e => d.recordDelete e.1 e.2) d = ⟨d.inserts, d.deletes ++ spent⟩ := by
  induction spent generalizing d with
  | nil => simp
  | cons e spent ih =>
    rw [List.foldl_cons, ih]
    simp [recordDelete]

/-- Removing the inputs and recording the outputs they had is an effect without new outputs. -/
theorem effect_removeInputs (ids : List Hash32) (inputs : List TransactionInput) (u : UtxoSet) :
    Effect ids u ((spentOutputs inputs u).foldl (fun d e => d.recordDelete e.1 e.2) {})
      (removeInputs inputs u) := by
  rw [foldl_recordDelete]
  refine ⟨⟨?_, ?_, ?_⟩, ?_⟩
  · intro k hk
    cases hk
  · intro e he _
    exact (mem_spentOutputs.1 (by simpa using he)).2
  · intro k _
    rw [lookup_removeInputs]
    split
    · next hk =>
      cases hlook : u.lookup k with
      | none => exact .inl rfl
      | some v =>
        refine .inr ⟨rfl, List.mem_map.2 ⟨(k, v), ?_, rfl⟩⟩
        simpa using mem_spentOutputs.2 ⟨hk, hlook⟩
    · exact .inl rfl
  · intro k hk
    cases hk

/-! ## The paths that apply a transaction -/

section
variable (tx : Transaction) (utxo : UtxoSubState) (hfresh : Fresh [tx.hash] utxo.utxoSet)
include hfresh

theorem applyUtxoChanges_effect : Effect [tx.hash] utxo.utxoSet (applyUtxoChanges tx utxo).2
      (applyUtxoChanges tx utxo).1.utxoSet := by
  have hspent := effect_removeInputs [tx.hash] tx.body.inputs utxo.utxoSet
  refine hspent.createOutputs hfresh fun e he => ?_
  exact List.mem_singleton.2 (transactionId_of_mem_keyedOutputs he)

theorem applyCollateralConsumption_effect :
    Effect [tx.hash] utxo.utxoSet (applyCollateralConsumption tx utxo).2
      (applyCollateralConsumption tx utxo).1.utxoSet := by
  have hspent := (Effect.nil [tx.hash] utxo.utxoSet).consumeInputs tx.body.collateral.eraseDups
  refine hspent.createOutputs hfresh fun e he => ?_
  unfold collateralReturnOutput at he
  cases hret : tx.body.collateralReturn with
  | none => simp [hret] at he
  | some output =>
    obtain rfl : e = (outputKey tx.hash tx.body.outputs.length, output) := by simpa [hret] using he
    exact List.mem_singleton_self _

end

/-! ### Byron -/

variable {effect : ByronTxEffect} {sub : SubTransaction}

theorem applyByronBlock_produced {cbor : Minicbor} {policy : ByronFeePolicy}
    {mode : BlockValidationMode} (h : applyByronBlock cbor policy mode u tx = .ok effect) :
    ∀ e ∈ effect.produced, e.1.transactionId = tx.hash := by
  intro e he
  cases mode with
  | validateAll =>
    simp only [applyByronBlock, validateByronTx, bind_eq_ok] at h
    obtain ⟨_, -, sums, -, _, -, outputSum, -, _, -, minFee, -, _, -, hret⟩ := h
    cases hret
    exact transactionId_of_mem_keyedOutputs he
  | applyOnly =>
  simp only [applyByronBlock] at h
  split at h
  · cases h
    exact transactionId_of_mem_keyedOutputs he
  · cases h
    cases he

/-! ### Sub-transactions

The first pass resolves inputs through the overlay, the second pass writes. `View` says that the
overlay over the untouched set shows what the second pass will have written by then. -/

theorem Effect.merge_comm (h : Effect ids u (d.merge d') u') : Effect ids u (d'.merge d) u' where
  recorded := h.recorded.merge_comm
  owned := by
    intro k hk
    refine h.owned k ?_
    simpa [inserted, merge, or_comm] using hk

def View (overlay : Overlay) (u c : UtxoSet) : Prop := ∀ k, resolveInput overlay u k = c.lookup k

theorem View.insert {c c' : UtxoSet} (h : View overlay u c)
    {k : TransactionInput} {entry : Option TransactionOutput}
    (hc : ∀ k', c'.lookup k' = if k' = k then entry else c.lookup k') :
    View (overlay.insert k entry) u c' := by
  intro k'
  rw [hc, resolveInput, lookup_insert_ite]
  split_ifs
  · rfl
  · exact h k'

theorem View.tombstones
    (h : View overlay u acc.1) (spent : List (TransactionInput × TransactionOutput)) :
    View (spent.foldl (fun o e => o.insert e.1 none) overlay) u
      (spent.foldl (fun acc e => (acc.1.erase e.1, acc.2.recordDelete e.1 e.2)) acc).1 := by
  induction spent generalizing overlay acc with
  | nil => exact h
  | cons e spent ih => exact ih (h.insert fun k' => lookup_erase_ite _ _ _)

theorem View.created
    (h : View overlay u acc.1) (created : List (TransactionInput × TransactionOutput)) :
    View (created.foldl (fun o e => o.insert e.1 (some e.2)) overlay) u
      (createOutputs created acc).1 := by
  induction created generalizing overlay acc with
  | nil => exact h
  | cons e created ih => exact ih (h.insert fun k' => lookup_insert_ite _ _ _ _)

variable {parent : Hash32} {slot : Nat}

theorem resolveSubInputs_spent (h : resolveSubInputs overlay u parent sub inputs = .ok spent) :
    ∀ e ∈ spent, resolveInput overlay u e.1 = some e.2 := by
  induction inputs generalizing spent with
  | nil =>
    cases h
    intro e he
    cases he
  | cons input inputs ih =>
    rw [resolveSubInputs] at h
    cases hres : resolveInput overlay u input with
    | none => simp [hres] at h
    | some output =>
    simp only [hres, bind_eq_ok] at h
    obtain ⟨rest, hrest, hret⟩ := h
    cases hret
    intro e he
    rcases List.mem_cons.1 he with rfl | he
    · exact hres
    · exact ih hrest e he

/-- Recording deletes whose values were read off the map before them, listed twice or not. -/
theorem Effect.deleteAll (h : Effect ids u d u')
    (hspent : ∀ e ∈ spent, e.1 ∉ d.inserted → u.lookup e.1 = some e.2) :
    Effect ids u
      (spent.foldl (fun acc e => (acc.1.erase e.1, acc.2.recordDelete e.1 e.2)) (u', d)).2
      (spent.foldl (fun acc e => (acc.1.erase e.1, acc.2.recordDelete e.1 e.2)) (u', d)).1 := by
  induction spent generalizing u' d with
  | nil => exact h
  | cons e spent ih =>
    refine ih ⟨h.recorded.delete_of (hspent e List.mem_cons_self), h.owned⟩ fun e' he' => ?_
    exact hspent e' (List.mem_cons_of_mem _ he')

theorem Effect.commitSubTransaction (h : Effect ids u acc.2 acc.1) (hfresh : Fresh ids u)
    (hid : sub.txId ∈ ids) (hspent : ∀ e ∈ spent, acc.1.lookup e.1 = some e.2) :
    Effect ids u (Dugite.commitSubTransaction acc (sub, spent)).2
      (Dugite.commitSubTransaction acc (sub, spent)).1 := by
  have hdel := h.deleteAll fun e he hnew => h.recorded.lookup_before (hspent e he) hnew
  exact hdel.createOutputs hfresh fun e he => transactionId_of_mem_keyedOutputs he ▸ hid

/-- The second pass records everything it writes. The induction is on the sub-transactions, with
the overlay of the first pass and the accumulator of the second in step. -/
theorem planSubTransactions_effect (hfresh : Fresh ids u) {subs : List SubTransaction}
    {planned : List (SubTransaction × List (TransactionInput × TransactionOutput))}
    (h : planSubTransactions slot u parent subs overlay = .ok planned)
    (hids : ∀ sub ∈ subs, sub.txId ∈ ids) (acc : UtxoSet × UtxoDiff)
    (hview : View overlay u acc.1) (hacc : Effect ids u acc.2 acc.1) :
    Effect ids u (planned.foldl Dugite.commitSubTransaction acc).2
      (planned.foldl Dugite.commitSubTransaction acc).1 := by
  induction subs generalizing overlay planned acc with
  | nil =>
    cases h
    exact hacc
  | cons sub subs ih =>
    simp only [planSubTransactions, bind_eq_ok] at h
    obtain ⟨spent, hplan, rest, hrest, hret⟩ := h
    cases hret
    have hspent : ∀ e ∈ spent, acc.1.lookup e.1 = some e.2 := by
      intro e he
      simp only [planSubTransaction, bind_eq_ok] at hplan
      obtain ⟨_, -, _, -, _, -, _, -, hspent⟩ := hplan
      exact (hview e.1).symm.trans (resolveSubInputs_spent hspent e he)
    exact ih hrest (fun s hs => hids s (List.mem_cons_of_mem _ hs)) _ ((hview.tombstones spent).created _)
      (hacc.commitSubTransaction hfresh (hids sub List.mem_cons_self) hspent)

theorem applySubTransactions_effect (h : applySubTransactions slot tx utxo = .ok (utxo', d))
    (hfresh : Fresh (tx.body.subTransactions.map (·.txId)) utxo.utxoSet) :
    Effect (tx.body.subTransactions.map (·.txId)) utxo.utxoSet d utxo'.utxoSet := by
  simp only [applySubTransactions, bind_eq_ok] at h
  obtain ⟨planned, hplan, hret⟩ := h
  have hids : ∀ sub ∈ tx.body.subTransactions,
      sub.txId ∈ tx.body.subTransactions.map (·.txId) := fun sub hsub =>
    List.mem_map_of_mem hsub
  have heff := planSubTransactions_effect hfresh hplan hids (utxo.utxoSet, {}) (fun k => rfl)
    (Effect.nil _ _)
  cases hret
  exact heff

end Effects

/-! ### The era rules -/

/-- The ids under which a transaction creates outputs. -/
def Transaction.ids (era : Era) (tx : Transaction) : List Hash32 :=
  if era = .dijkstra then tx.body.subTransactions.map (·.txId) ++ [tx.hash] else [tx.hash]

theorem Transaction.hash_mem_ids (era : Era) (tx : Transaction) : tx.hash ∈ tx.ids era := by
  unfold ids
  split
  · exact List.mem_append_right _ (List.mem_singleton_self _)
  · exact List.mem_singleton_self _

variable {era : Era} {slot : Nat} {tx : Transaction} {utxo utxo' : UtxoSubState} {d : UtxoDiff}
  (h : applyValidTx era slot tx utxo = .ok (utxo', d))
include h

theorem applyValidTx_effect
    (hnodup : (tx.ids era).Nodup) (hfresh : Fresh (tx.ids era) utxo.utxoSet) :
    Effect (tx.ids era) utxo.utxoSet d utxo'.utxoSet := by
  have hhash : [tx.hash] ⊆ tx.ids era := by
    intro id hid
    exact List.mem_singleton.1 hid ▸ tx.hash_mem_ids era
  unfold applyValidTx at h
  split at h
  · next hsub =>
    simp only [bind_eq_ok] at h
    obtain ⟨⟨utxo₁, subDiff⟩, hsubs, hret⟩ := h
    have hids : tx.ids era = tx.body.subTransactions.map (·.txId) ++ [tx.hash] := if_pos hsub.1
    rw [hids] at hfresh hnodup ⊢
    -- the sub-transactions come first, and leave the parent's id alone
    have heff := applySubTransactions_effect hsubs fun k hk =>
      hfresh k (List.mem_append_left _ hk)
    have hparent : Fresh [tx.hash] utxo.utxoSet := fun k hk =>
      hfresh k (List.mem_append_right _ hk)
    have heff' := applyUtxoChanges_effect tx utxo₁
      (heff.fresh (List.disjoint_of_nodup_append hnodup) hparent)
    cases hret
    exact (heff.append heff' hparent).merge_comm
  · cases h
    exact (applyUtxoChanges_effect tx utxo fun k hk => hfresh k (hhash hk)).mono hhash

/-! What does not touch the diffs of earlier blocks. -/

theorem applyValidTx_diffSeq : utxo'.diffSeq = utxo.diffSeq := by
  unfold applyValidTx at h
  split at h
  · simp only [applySubTransactions, bind_eq_ok] at h
    obtain ⟨⟨utxo₁, subDiff⟩, ⟨planned, -, hsubs⟩, hret⟩ := h
    cases hsubs
    cases hret
    rfl
  · cases h
    rfl

end Dugite
