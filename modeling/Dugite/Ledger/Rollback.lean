import Dugite.Ledger.UtxoDiff

/-!
# Blocks on the UTxO set and their rollback

`applyBlock` is the part of `apply_block_impl` that touches the UTxO sub-state: the era translation,
the transaction loop of the Byron path and of the later eras, and the per-block diff pushed onto the
bounded sequence. All other rules of the ledger (connection to the tip, epoch boundaries,
certificates, validation, phase 2) are a parameter: they have a state of their own, see everything,
may reject, and may set the fee and donation pots, but they do not write the UTxO set.

`rollbackUtxo` undoes the last diffs newest first. It is exact at every depth as long as no block of
the window crosses an era boundary with a translation that removes outputs: the removed outputs are
not in the diff of that block.
-/

namespace Dugite

open Journal Checks List Finmap

/-! ## The model -/

/-- Byron to Shelley: outputs of value zero are dropped. -/
def dropZeroValueByronTxouts (utxoSet : UtxoSet) : UtxoSet :=
  utxoSet.retain fun _ output => output.value.coin ≠ 0

/-- Shelley to Allegra: outputs at redeem addresses go back to the reserves. -/
def returnRedeemAddrsToReserves (cbor : Minicbor) (utxoSet : UtxoSet) : UtxoSet :=
  utxoSet.retain fun _ output => !output.address.isRedeem cbor

/-- The UTxO side of `on_era_transition`. The other translations do not touch the set. -/
def onEraTransition (cbor : Minicbor) (fromEra toEra : Era) (utxoSet : UtxoSet) : UtxoSet :=
  if fromEra = .byron ∧ toEra = .shelley then dropZeroValueByronTxouts utxoSet
  else if fromEra = .shelley ∧ toEra = .allegra then returnRedeemAddrsToReserves cbor utxoSet
  else utxoSet

/-- The rules that do not write the UTxO set, over a state `σ` of their own: before the body of a
block, before each transaction, and after the body. -/
structure OtherRules (σ : Type) where
  tick : Block → UtxoSubState → σ → Except LedgerError (σ × UtxoPots)
  tx : Block → Transaction → UtxoSubState → σ → Except LedgerError (σ × UtxoPots)
  finish : Block → UtxoSubState → σ → Except LedgerError (σ × UtxoPots)

structure LedgerState (σ : Type) where
  era : Era
  utxo : UtxoSubState
  rest : σ

/-- What a node is configured with. -/
structure Config where
  cbor : Minicbor
  securityParam : Nat

/-- `DiffSeq::push_bounded`. -/
def pushBounded {α : Type} (maxLen : Nat) (seq : List α) (entry : α) : List α :=
  if 0 < maxLen ∧ maxLen ≤ seq.length then seq.tail ++ [entry] else seq ++ [entry]

section Apply
variable {σ : Type} (C : Config) (R : OtherRules σ)

/-- A transaction on the UTxO sub-state, by the path of the block's era. -/
def applyTxUtxo (mode : BlockValidationMode) (block : Block) (tx : Transaction)
    (utxo : UtxoSubState) : Except LedgerError (UtxoSubState × UtxoDiff) :=
  if block.era = .byron then
    match applyByronBlock C.cbor .canonical mode utxo.utxoSet tx with
    | .error e => .error (.blockTxValidationFailed block.header.slot tx.hash e.text)
    | .ok effect =>
      let (utxoSet, diff) := applyByronEffect effect utxo.utxoSet
      .ok ({ utxo with utxoSet, epochFees := satAdd utxo.epochFees effect.fee }, diff)
  else if tx.isValid then applyValidTx block.era block.header.slot tx utxo
  else applyInvalidTx block.era tx utxo

/-- The transaction loop: a transaction hash seen before in the block is fatal for a new block and
skipped on replay. -/
def applyTxs (mode : BlockValidationMode) (block : Block) :
    List Transaction → List Hash32 → UtxoSubState → σ → UtxoDiff →
      Except LedgerError (UtxoSubState × σ × UtxoDiff)
  | [], _, utxo, rest, blockDiff => .ok (utxo, rest, blockDiff)
  | tx :: txs, seen, utxo, rest, blockDiff =>
    if tx.hash ∈ seen then
      match mode with
      | .validateAll => .error (.blockTxValidationFailed block.header.slot tx.hash
          "BadInputsUTxO: duplicate transaction hash in block")
      | .applyOnly => applyTxs mode block txs seen utxo rest blockDiff
    else do
      let (rest, pots) ← R.tx block tx utxo rest
      let (utxo, diff) ← applyTxUtxo C mode block tx { utxo with toUtxoPots := pots }
      applyTxs mode block txs (tx.hash :: seen) utxo rest (blockDiff.merge diff)

/-- The set after the era translation, when the block is of a later era than the ledger. -/
def translated (era : Era) (block : Block) (utxoSet : UtxoSet) : UtxoSet :=
  if era.rank < block.era.rank then onEraTransition C.cbor era block.era utxoSet else utxoSet

def applyBlock (mode : BlockValidationMode) (block : Block) (s : LedgerState σ) :
    Except LedgerError (LedgerState σ) := do
  let (rest, pots) ← R.tick block s.utxo s.rest
  let utxo := { s.utxo with
    toUtxoPots := pots, utxoSet := translated C s.era block s.utxo.utxoSet }
  let (utxo, rest, diff) ← applyTxs C R mode block block.transactions [] utxo rest {}
  let (rest, pots) ← R.finish block utxo rest
  let diffSeq := pushBounded C.securityParam utxo.diffSeq
    (block.header.slot, block.header.headerHash, diff)
  return { era := block.era, utxo := { utxo with toUtxoPots := pots, diffSeq }, rest }

/-- Blocks in sequence, each in its own mode. -/
def applyBlocks : List (BlockValidationMode × Block) → LedgerState σ →
    Except LedgerError (LedgerState σ)
  | [], s => .ok s
  | b :: bs, s => do
    let s ← applyBlock C R b.1 b.2 s
    applyBlocks bs s

end Apply

/-- The UTxO side of `rollback_via_seq`: undo the last `n` diffs, newest first, unless fewer are
kept. -/
def rollbackUtxo (n : Nat) (utxo : UtxoSubState) : Option UtxoSubState :=
  if utxo.diffSeq.length < n then none
  else some { utxo with
    utxoSet := rewind ((utxo.diffSeq.reverse.take n).map (·.2.2)) utxo.utxoSet
    diffSeq := utxo.diffSeq.take (utxo.diffSeq.length - n) }

/-- The ids under which the transactions of a block create outputs. -/
def Block.ids (block : Block) : List Hash32 := block.transactions.flatMap (·.ids block.era)

/-- The era translation at this block, if any, finds nothing to remove. -/
def TranslationKeeps (cbor : Minicbor) {σ : Type} (s : LedgerState σ) (block : Block) : Prop :=
  (s.era = .byron → block.era = .shelley →
    ∀ k output, s.utxo.utxoSet.lookup k = some output → output.value.coin ≠ 0) ∧
  (s.era = .shelley → block.era = .allegra →
    ∀ k output, s.utxo.utxoSet.lookup k = some output → output.address.isRedeem cbor = false)

/-! ## One block -/

variable {u : UtxoSet}

/-- Keeping the entries a predicate admits changes nothing exactly when it admits all. -/
theorem retain_eq_self_iff {p : TransactionInput → TransactionOutput → Bool} :
    u.retain p = u ↔ ∀ k output, u.lookup k = some output → p k output = true := by
  constructor
  · intro h k output hk
    rw [← h, FinMap.lookup_retain] at hk
    exact (Option.filter_eq_some_iff.1 hk).2
  · intro h
    refine (submap_retain p u).antisymm fun k output hk => ?_
    rw [FinMap.lookup_retain, hk]
    exact Option.filter_eq_some_iff.2 ⟨rfl, h k output hk⟩

section
variable {σ : Type} {C : Config} {R : OtherRules σ}

theorem translated_submap (era : Era) (block : Block) (u : UtxoSet) :
    Submap (translated C era block u) u := by
  unfold translated onEraTransition
  split
  · split
    · exact submap_retain _ _
    · split
      · exact submap_retain _ _
      · exact Submap.refl u
  · exact Submap.refl u

theorem translated_eq_iff (s : LedgerState σ) (block : Block) :
    translated C s.era block s.utxo.utxoSet = s.utxo.utxoSet ↔ TranslationKeeps C.cbor s block := by
  unfold translated onEraTransition TranslationKeeps
  by_cases hbyron : s.era = .byron ∧ block.era = .shelley
  · rw [hbyron.1, hbyron.2, if_pos (by decide), if_pos ⟨rfl, rfl⟩, dropZeroValueByronTxouts,
      retain_eq_self_iff]
    simp
  by_cases hshelley : s.era = .shelley ∧ block.era = .allegra
  · rw [hshelley.1, hshelley.2, if_pos (by decide), if_neg (by decide), if_pos ⟨rfl, rfl⟩,
      returnRedeemAddrsToReserves, retain_eq_self_iff]
    simp
  rw [if_neg hbyron, if_neg hshelley, ite_self]
  simp only [not_and] at hbyron hshelley
  exact ⟨fun _ => ⟨fun h h' => absurd h' (hbyron h), fun h h' => absurd h' (hshelley h)⟩,
    fun _ => rfl⟩

theorem Fresh.of_submap {ids : List Hash32} {u u' : UtxoSet} (h : Fresh ids u)
    (hsub : Submap u' u) : Fresh ids u' := by
  intro k hk
  cases hlook : u'.lookup k with
  | none => rfl
  | some v => exact absurd ((h k hk).symm.trans (hsub k v hlook)) (by simp)

variable {utxo : UtxoSubState} {s s' : LedgerState σ} {bs : List (BlockValidationMode × Block)}
  {steps : List (Step TransactionInput TransactionOutput)}
  {mode : BlockValidationMode} {block : Block} {utxo' : UtxoSubState}

/-- One transaction, by whichever path. -/
theorem applyTxUtxo_effect {tx : Transaction} {d : UtxoDiff}
    (h : applyTxUtxo C mode block tx utxo = .ok (utxo', d))
    (hnodup : (tx.ids block.era).Nodup) (hfresh : Fresh (tx.ids block.era) utxo.utxoSet) :
    Effect (tx.ids block.era) utxo.utxoSet d utxo'.utxoSet ∧ utxo'.diffSeq = utxo.diffSeq := by
  have hhash : [tx.hash] ⊆ tx.ids block.era := by
    intro id hid
    exact mem_singleton.1 hid ▸ tx.hash_mem_ids block.era
  have hfresh' : Fresh [tx.hash] utxo.utxoSet := fun k hk => hfresh k (hhash hk)
  unfold applyTxUtxo at h
  split at h
  · cases heff : applyByronBlock C.cbor .canonical mode utxo.utxoSet tx with
    | error e => simp [heff] at h
    | ok effect =>
    simp only [heff] at h
    cases h
    have hspent := (Effect.nil [tx.hash] utxo.utxoSet).consumeInputs effect.consumed
    refine ⟨(hspent.createOutputs hfresh' fun e he => ?_).mono hhash, rfl⟩
    exact mem_singleton.2 (applyByronBlock_produced heff e he)
  · split at h
    · exact ⟨applyValidTx_effect h hnodup hfresh, applyValidTx_diffSeq h⟩
    · have heff := applyCollateralConsumption_effect tx utxo hfresh'
      cases hera : block.era <;> rw [hera] at h hhash <;> cases h <;> exact ⟨heff.mono hhash, rfl⟩

/-- The transaction loop records the whole way from the set `u` the block started on. The ids of the
transactions still to come are fresh both in `u` and in the current set. -/
theorem applyTxs_effect {txs : List Transaction} {seen done : List Hash32} {rest rest' : σ}
    {d d' : UtxoDiff} (h : applyTxs C R mode block txs seen utxo rest d = .ok (utxo', rest', d'))
    (hnodup : (txs.flatMap (·.ids block.era)).Nodup)
    (hbase : Fresh (txs.flatMap (·.ids block.era)) u)
    (hfresh : Fresh (txs.flatMap (·.ids block.era)) utxo.utxoSet)
    (hacc : Effect done u d utxo.utxoSet) :
    Effect (done ++ txs.flatMap (·.ids block.era)) u d' utxo'.utxoSet ∧
      utxo'.diffSeq = utxo.diffSeq := by
  induction txs generalizing seen done utxo rest d with
  | nil =>
    cases h
    exact ⟨hacc.mono (subset_append_left _ _), rfl⟩
  | cons tx txs ih =>
    have hrest : ∀ {u}, Fresh (tx.ids block.era ++ txs.flatMap (·.ids block.era)) u →
        Fresh (txs.flatMap (·.ids block.era)) u := fun hf k hk =>
      hf k (mem_append_right _ hk)
    have hhead : ∀ {u}, Fresh (tx.ids block.era ++ txs.flatMap (·.ids block.era)) u →
        Fresh (tx.ids block.era) u := fun hf k hk => hf k (mem_append_left _ hk)
    obtain ⟨hnodupTx, hnodupRest, -⟩ := nodup_append'.1 hnodup
    rw [applyTxs.eq_def] at h
    dsimp only at h
    split at h
    · cases mode with
      | validateAll => cases h
      | applyOnly =>
      -- a duplicate on replay is passed over
      obtain ⟨heff, hseq⟩ := ih h hnodupRest (hrest hbase) (hrest hfresh) hacc
      refine ⟨heff.mono ?_, hseq⟩
      exact append_subset.2 ⟨subset_append_left _ _, fun id hid =>
        mem_append_right _ (mem_append_right _ hid)⟩
    · simp only [bind_eq_ok] at h
      obtain ⟨⟨rest₁, pots⟩, -, ⟨utxo₁, diff⟩, htx, hloop⟩ := h
      obtain ⟨heff, hseq⟩ := applyTxUtxo_effect htx hnodupTx (hhead hfresh)
      have hfresh₁ := heff.fresh (disjoint_of_nodup_append hnodup) (hrest hfresh)
      obtain ⟨heff', hseq'⟩ := ih hloop hnodupRest (hrest hbase) hfresh₁
        (hacc.append heff (hhead hbase))
      exact ⟨by rwa [append_assoc] at heff', hseq'.trans hseq⟩

/-- A block records everything but its era translation, and pushes that record. -/
theorem applyBlock_effect (h : applyBlock C R mode block s = .ok s') (hnodup : block.ids.Nodup)
    (hfresh : Fresh block.ids s.utxo.utxoSet) :
    ∃ d, Effect block.ids (translated C s.era block s.utxo.utxoSet) d s'.utxo.utxoSet ∧
      s'.utxo.diffSeq = pushBounded C.securityParam s.utxo.diffSeq
        (block.header.slot, block.header.headerHash, d) := by
  simp only [applyBlock, bind_eq_ok] at h
  obtain ⟨⟨rest, pots⟩, -, ⟨utxo, rest', d⟩, htxs, ⟨rest'', pots'⟩, -, hret⟩ := h
  have hfresh' := hfresh.of_submap (translated_submap (C := C) s.era block s.utxo.utxoSet)
  obtain ⟨heff, hseq⟩ := applyTxs_effect htxs hnodup hfresh' hfresh' (Effect.nil [] _)
  cases hret
  exact ⟨d, heff, by rw [← hseq]⟩

/-! ## Runs -/

theorem applyBlocks_append (bs bs' : List (BlockValidationMode × Block)) (s : LedgerState σ) :
    applyBlocks C R (bs ++ bs') s = applyBlocks C R bs s >>= applyBlocks C R bs' := by
  induction bs generalizing s with
  | nil => rfl
  | cons b bs ih =>
    simp only [cons_append, applyBlocks, ih, bind_assoc]

/-- The newest entries after a push. -/
theorem pushBounded_reverse_take {α : Type} (maxLen : Nat) (seq : List α) (entry : α) (n : Nat)
    (hn : n < (pushBounded maxLen seq entry).length) :
    n ≤ seq.length ∧
      (pushBounded maxLen seq entry).reverse.take (n + 1) = entry :: seq.reverse.take n := by
  -- what is left of the sequence may have lost its oldest entry
  obtain ⟨left, hsuf, heq⟩ : ∃ left, left <:+ seq ∧
      pushBounded maxLen seq entry = left ++ [entry] := by
    unfold pushBounded
    split
    · exact ⟨seq.tail, tail_suffix seq, rfl⟩
    · exact ⟨seq, suffix_rfl, rfl⟩
  rw [heq, length_append, length_singleton] at hn
  have hlen := hsuf.length_le
  refine ⟨by omega, ?_⟩
  obtain ⟨old, rfl⟩ := hsuf
  rw [heq, reverse_concat, take_succ_cons, reverse_append, take_append_of_le_length]
  rw [length_reverse]
  omega

/-- The steps of a run, newest first: the set before each block, what the era translation leaves of
it, and the diff pushed. -/
structure Steps (C : Config) (R : OtherRules σ) (bs : List (BlockValidationMode × Block))
    (s s' : LedgerState σ) (steps : List (Step TransactionInput TransactionOutput)) : Prop where
  chain : Chain steps s'.utxo.utxoSet
  length : steps.length = bs.length
  /-- Where the `i`-th step from the end comes from. -/
  source : ∀ i step, steps[i]? = some step → ∃ b t, bs[bs.length - 1 - i]? = some b ∧
    applyBlocks C R (bs.take (bs.length - 1 - i)) s = .ok t ∧
    step.before = t.utxo.utxoSet ∧ step.base = translated C t.era b.2 t.utxo.utxoSet
  /-- The kept diffs are the journals of the last steps. -/
  kept : ∀ n, n ≤ bs.length → n ≤ s'.utxo.diffSeq.length →
    (s'.utxo.diffSeq.reverse.take n).map (·.2.2) = (steps.take n).map (·.journal)
  /-- Ids that the blocks do not use stay fresh. -/
  fresh : ∀ ids, (bs.flatMap (·.2.ids)).Disjoint ids → Fresh ids s.utxo.utxoSet →
    Fresh ids s'.utxo.utxoSet

theorem Steps.nil (s : LedgerState σ) : Steps C R [] s s [] where
  chain := .nil _
  length := rfl
  source := by intro i step h; simp at h
  kept := by
    intro n hn _
    obtain rfl : n = 0 := Nat.le_zero.1 hn
    rfl
  fresh := fun _ _ h => h

/-- One more block adds one step. -/
theorem Steps.snoc {b : BlockValidationMode × Block} {t : LedgerState σ}
    (h : Steps C R bs s t steps) (hrun : applyBlocks C R bs s = .ok t)
    (hb : applyBlock C R b.1 b.2 t = .ok s') (hnodup : b.2.ids.Nodup)
    (hfresh : Fresh b.2.ids t.utxo.utxoSet) :
    ∃ step, Steps C R (bs ++ [b]) s s' (step :: steps) := by
  obtain ⟨d, heff, hseq⟩ := applyBlock_effect hb hnodup hfresh
  have hdrop := translated_submap (C := C) t.era b.2 t.utxo.utxoSet
  refine ⟨⟨t.utxo.utxoSet, translated C t.era b.2 t.utxo.utxoSet, d⟩, ?_⟩
  refine ⟨.cons h.chain hdrop heff.recorded, by simp [h.length], ?_, ?_, ?_⟩
  · intro i step hi
    cases i with
    | zero =>
      obtain rfl := Option.some.inj hi
      refine ⟨b, t, by simp, ?_, rfl, rfl⟩
      simpa using hrun
    | succ i =>
    have hi' : steps[i]? = some step := by simpa using hi
    have hlt : i < bs.length := by
      rw [← h.length]
      exact (List.getElem?_eq_some_iff.1 hi').1
    obtain ⟨b', t', hget, hprefix, hbefore⟩ := h.source i step hi'
    have hidx : (bs ++ [b]).length - 1 - (i + 1) = bs.length - 1 - i := by
      rw [length_append, length_singleton]
      omega
    rw [hidx]
    refine ⟨b', t', ?_, ?_, hbefore⟩
    · rw [getElem?_append_left (by omega)]
      exact hget
    · rw [take_append_of_le_length (by omega)]
      exact hprefix
  · intro n hn hlen
    cases n with
    | zero => rfl
    | succ n =>
      rw [hseq] at hlen ⊢
      obtain ⟨hn', htake⟩ := pushBounded_reverse_take _ _ _ _ hlen
      rw [htake, map_cons, take_succ_cons, map_cons, h.kept n (by simpa using hn) hn']
  · intro ids hdisj hids
    rw [flatMap_append, disjoint_append_left] at hdisj
    have ht := (h.fresh ids hdisj.1 hids).of_submap hdrop
    exact heff.fresh (by simpa using hdisj.2) ht

/-- Every successful run with fresh ids has its steps. -/
theorem applyBlocks_steps
    (hrun : applyBlocks C R bs s = .ok s') (hnodup : (bs.flatMap (·.2.ids)).Nodup)
    (hfresh : Fresh (bs.flatMap (·.2.ids)) s.utxo.utxoSet) :
    ∃ steps, Steps C R bs s s' steps := by
  induction bs using List.reverseRecOn generalizing s' with
  | nil =>
    cases hrun
    exact ⟨[], Steps.nil s⟩
  | append_singleton bs b ih =>
    rw [applyBlocks_append, bind_eq_ok] at hrun
    obtain ⟨t, hprefix, hlast⟩ := hrun
    simp only [applyBlocks, bind_eq_ok] at hlast
    obtain ⟨s'', hb, hret⟩ := hlast
    cases hret
    rw [flatMap_append, flatMap_singleton] at hnodup hfresh
    obtain ⟨hnodupInit, hnodupLast, hdisj⟩ := nodup_append'.1 hnodup
    obtain ⟨steps, hsteps⟩ := ih hprefix hnodupInit fun k hk =>
      hfresh k (mem_append_left _ hk)
    have hfreshLast := hsteps.fresh b.2.ids hdisj fun k hk => hfresh k (mem_append_right _ hk)
    obtain ⟨step, hsnoc⟩ := hsteps.snoc hprefix hb hnodupLast hfreshLast
    exact ⟨step :: steps, hsnoc⟩

theorem rollbackUtxo_eq_some {n : Nat} {r : UtxoSubState} (h : rollbackUtxo n utxo = some r) :
    n ≤ utxo.diffSeq.length ∧
      r.utxoSet = rewind ((utxo.diffSeq.reverse.take n).map (·.2.2)) utxo.utxoSet := by
  unfold rollbackUtxo at h
  split at h
  · cases h
  · next hlen =>
    cases h
    exact ⟨Nat.not_lt.1 hlen, rfl⟩

variable (h : Steps C R bs s s' steps)
include h

/-- The step of every block. -/
theorem Steps.exists_step {i : Nat} (hi : i < bs.length) : ∃ step, steps[i]? = some step := by
  rw [getElem?_eq_getElem (h.length ▸ hi)]
  exact ⟨_, rfl⟩

/-- Rolling back is rewinding the kept steps. -/
theorem Steps.rollback_exact_iff (hrun : applyBlocks C R bs s = .ok s') :
    (∀ n r t, n ≤ bs.length → rollbackUtxo n s'.utxo = some r →
        applyBlocks C R (bs.take (bs.length - n)) s = .ok t → r.utxoSet = t.utxo.utxoSet) ↔
      ∀ i step, i < min bs.length s'.utxo.diffSeq.length → steps[i]? = some step →
        rewind ((steps.take (i + 1)).map (·.journal)) s'.utxo.utxoSet = step.before := by
  constructor
  · intro hexact i step hi hstep
    obtain ⟨-, t, -, ht, hbefore, -⟩ := h.source i step hstep
    obtain ⟨r, hr⟩ : ∃ r, rollbackUtxo (i + 1) s'.utxo = some r := ⟨_, if_neg (by omega)⟩
    have hset := (rollbackUtxo_eq_some hr).2
    rw [h.kept (i + 1) (by omega) (by omega)] at hset
    rw [← hset, hbefore]
    refine hexact (i + 1) r t (by omega) hr ?_
    rwa [show bs.length - (i + 1) = bs.length - 1 - i by omega]
  · intro hrewind n r t hn hr ht
    obtain ⟨hlen, hset⟩ := rollbackUtxo_eq_some hr
    cases n with
    | zero =>
      rw [Nat.sub_zero, take_length] at ht
      obtain rfl := Except.ok.inj (hrun.symm.trans ht)
      exact hset
    | succ n =>
    obtain ⟨step, hstep⟩ := h.exists_step (show n < bs.length by omega)
    obtain ⟨-, t', -, ht', hbefore, -⟩ := h.source n step hstep
    rw [show bs.length - 1 - n = bs.length - (n + 1) by omega] at ht'
    obtain rfl := Except.ok.inj (ht.symm.trans ht')
    rw [hset, h.kept (n + 1) hn hlen, ← hbefore]
    exact hrewind n step (by omega) hstep

/-- The kept steps drop nothing exactly when the era translations of their blocks do not. -/
theorem Steps.keeps_iff : (∀ i b t, bs.length ≤ i + s'.utxo.diffSeq.length → bs[i]? = some b →
        applyBlocks C R (bs.take i) s = .ok t → TranslationKeeps C.cbor t b.2) ↔
      ∀ i step, i < min bs.length s'.utxo.diffSeq.length → steps[i]? = some step →
        step.base = step.before := by
  constructor
  · intro hkeeps i step hi hstep
    obtain ⟨b, t, hb, ht, hbefore, hbase⟩ := h.source i step hstep
    rw [hbase, hbefore, translated_eq_iff]
    exact hkeeps _ b t (by omega) hb ht
  · intro hkept i b t hi hb ht
    have hlt : i < bs.length := (List.getElem?_eq_some_iff.1 hb).1
    obtain ⟨step, hstep⟩ := h.exists_step (show bs.length - 1 - i < bs.length by omega)
    obtain ⟨b', t', hb', ht', hbefore, hbase⟩ := h.source _ step hstep
    rw [show bs.length - 1 - (bs.length - 1 - i) = i by omega] at hb' ht'
    obtain rfl := Option.some.inj (hb.symm.trans hb')
    obtain rfl := Except.ok.inj (ht.symm.trans ht')
    have heq := hkept _ step (by omega) hstep
    rwa [hbase, hbefore, translated_eq_iff] at heq

/-- Rewinding the kept steps is exact at every depth exactly when none of them dropped
anything. -/
theorem Steps.rewind_iff (window : Nat) : (∀ i step, i < window → steps[i]? = some step →
        rewind ((steps.take (i + 1)).map (·.journal)) s'.utxo.utxoSet = step.before) ↔
      ∀ i step, i < window → steps[i]? = some step → step.base = step.before := by
  have hrecent : ∀ {i step}, (steps.take window)[i]? = some step ↔
      i < window ∧ steps[i]? = some step := by
    intro i step
    rw [getElem?_take]
    split <;> simp_all
  have hiff := (h.chain.take window).rewind_eq_iff
  constructor
  · intro hrewind i step hi hstep
    refine hiff.1 (fun n step' hn => ?_) step
      (mem_iff_getElem?.2 ⟨i, hrecent.2 ⟨hi, hstep⟩⟩)
    obtain ⟨hnw, hn⟩ := hrecent.1 hn
    rw [take_take, Nat.min_eq_left (by omega)]
    exact hrewind n step' hnw hn
  · intro hkept i step hi hstep
    have hall : ∀ step' ∈ steps.take window, step'.base = step'.before := by
      intro step' hmem
      obtain ⟨n, hn⟩ := mem_iff_getElem?.1 hmem
      obtain ⟨hnw, hn⟩ := hrecent.1 hn
      exact hkept n step' hnw hn
    have heq := hiff.2 hall i step (hrecent.2 ⟨hi, hstep⟩)
    rwa [take_take, Nat.min_eq_left (by omega)] at heq

end

/-- In a run of blocks with fresh transaction ids, undoing the last `n` kept diffs gives back the
set before the last `n` blocks for every `n`, exactly when no era translation of a block in the
window removed an output. -/
theorem utxo_rollback_exact_iff {σ : Type} (C : Config) (R : OtherRules σ)
    (bs : List (BlockValidationMode × Block)) (s s' : LedgerState σ)
    (hrun : applyBlocks C R bs s = .ok s') (hnodup : (bs.flatMap (·.2.ids)).Nodup)
    (hfresh : Fresh (bs.flatMap (·.2.ids)) s.utxo.utxoSet) :
    (∀ n r t, n ≤ bs.length → rollbackUtxo n s'.utxo = some r →
        applyBlocks C R (bs.take (bs.length - n)) s = .ok t → r.utxoSet = t.utxo.utxoSet) ↔
      ∀ i b t, bs.length ≤ i + s'.utxo.diffSeq.length → bs[i]? = some b →
        applyBlocks C R (bs.take i) s = .ok t → TranslationKeeps C.cbor t b.2 := by
  obtain ⟨steps, hsteps⟩ := applyBlocks_steps hrun hnodup hfresh
  rw [hsteps.rollback_exact_iff hrun, hsteps.keeps_iff]
  exact hsteps.rewind_iff _

/-! A Byron ledger with one output, and a Shelley block on it. -/

def noOtherRules : OtherRules Unit where
  tick _ utxo _ := .ok ((), utxo.toUtxoPots)
  tx _ _ utxo _ := .ok ((), utxo.toUtxoPots)
  finish _ utxo _ := .ok ((), utxo.toUtxoPots)

/-- A decoder that reads nothing: no address is a redeem address. -/
def noCbor : Minicbor := ⟨fun _ => none, fun _ => none, fun _ => none, fun _ => none, fun _ => none⟩

def sampleConfig : Config := ⟨noCbor, 2160⟩

def byronOutput (coin : Nat) : TransactionOutput :=
  { address := .byron ⟨[0x82]⟩, value := .lovelace coin }

/-- A Byron ledger whose only output, of the given value, is at `1#0`. -/
def byronLedger (coin : Nat) : LedgerState Unit :=
  ⟨.byron, { utxoSet := singleton ⟨1, 0⟩ (byronOutput coin) }, ()⟩

def blockHeaderAt (slot : Nat) : BlockHeader :=
  { headerHash := 7, prevHash := 6, issuerVkey := [], vrfVkey := [], vrfResult := ⟨[], []⟩,
    blockNumber := 1, slot, epochNonce := 0, bodySize := 0, bodyHash := 0,
    operationalCert := ⟨[], 0, 0, []⟩, protocolVersion := ⟨2, 0⟩, kesSignature := [],
    nonceVrfOutput := [], nonceVrfProof := [], rawHeaderBody := none }

/-- The first Shelley block, without transactions. -/
def firstShelleyBlock : Block := ⟨blockHeaderAt 10, [], .shelley⟩

/-- The first Shelley block drops a Byron output of value zero, and rolling that block back does not
bring it back. -/
theorem shelley_rollback_loses_output :
    ∃ s' r, applyBlocks sampleConfig noOtherRules [(.validateAll, firstShelleyBlock)]
        (byronLedger 0) = .ok s' ∧
      rollbackUtxo 1 s'.utxo = some r ∧
      (byronLedger 0).utxo.utxoSet.lookup ⟨1, 0⟩ = some (byronOutput 0) ∧
      r.utxoSet.lookup ⟨1, 0⟩ = none := by
  refine ⟨_, _, rfl, rfl, lookup_singleton_eq, ?_⟩
  rfl

/-- A transaction that spends the output of `byronLedger`, lists it twice, names an input that does
not exist, and creates an output. -/
def spendingTx : Transaction where
  hash := 2
  body := {
    inputs := [⟨1, 0⟩, ⟨9, 9⟩, ⟨1, 0⟩]
    outputs := [byronOutput 3]
    fee := 2 }

def spendingBlocks : List (BlockValidationMode × Block) :=
  [(.applyOnly, ⟨blockHeaderAt 10, [spendingTx], .shelley⟩)]

theorem shelley_rollback_restores_output :
    ∃ s', applyBlocks sampleConfig noOtherRules spendingBlocks (byronLedger 5) = .ok s' ∧
      s'.utxo.diffSeq.length = 1 ∧
      ∀ n r t, n ≤ spendingBlocks.length → rollbackUtxo n s'.utxo = some r →
        applyBlocks sampleConfig noOtherRules (spendingBlocks.take (spendingBlocks.length - n))
          (byronLedger 5) = .ok t → r.utxoSet = t.utxo.utxoSet := by
  obtain ⟨s', hrun, hlen⟩ : ∃ s', applyBlocks sampleConfig noOtherRules spendingBlocks
      (byronLedger 5) = .ok s' ∧ s'.utxo.diffSeq.length = 1 := ⟨_, rfl, rfl⟩
  refine ⟨s', hrun, hlen, (utxo_rollback_exact_iff sampleConfig noOtherRules spendingBlocks
    (byronLedger 5) s' hrun (by decide) fun k hk => ?_).2 fun i b t _ hb ht => ?_⟩
  · refine lookup_eq_none.2 fun hmem => ?_
    obtain rfl := (mem_singleton _ _ _).1 hmem
    exact absurd hk (by decide)
  · cases i with
    | succ i => simp [spendingBlocks] at hb
    | zero =>
    obtain rfl := Except.ok.inj (show Except.ok (byronLedger 5) = Except.ok t from ht)
    refine ⟨fun _ _ k output hk => ?_, fun h => absurd h (by decide)⟩
    have hmem := mem_of_lookup_eq_some hk
    obtain rfl := (mem_singleton _ _ _).1 hmem
    obtain rfl := Option.some.inj ((lookup_singleton_eq).symm.trans hk)
    decide

end Dugite
