import Dugite.Mempool.Rejection

/-!
# Bounds of the mempool

The totals stay within the configured maxima if no newcomer exceeds one of them by itself: room is
made by evictions until the newcomer fits or nothing is left, and an empty mempool takes it as it
is. A chain of pending transactions stays within the maximum depth if every newcomer has at most one
pending parent, so that the climb along the edges has only one way to go, and no pending child.
-/

namespace Dugite

open FinMap Cascade List Option Nat

namespace Mempool

/-! ## Making room -/

section
variable {m : Mempool} {e : MempoolEntry}

theorem size_removeTx_lt {worst : Hash32} (h : (m.txs.lookup worst).isSome = true) :
    (m.removeTx worst).2.txs.size < m.txs.size := by
  obtain ⟨e', he'⟩ := isSome_iff_exists.1 h
  have hsub : (m.removeTx worst).2.txs.keys ⊆ m.txs.keys := by
    intro x hx
    obtain ⟨ex, hex⟩ := mem_keys_iff.1 hx
    exact mem_keys_iff.2 ⟨ex, (kept_pending m).removeTxWithReason worst .manual (fun _ _ => id) x ex
      hex⟩
  refine Finset.card_lt_card ((Finset.ssubset_iff_of_subset hsub).2
    ⟨worst, mem_keys_iff.2 ⟨e', he'⟩, fun hx => ?_⟩)
  obtain ⟨ex, hex⟩ := mem_keys_iff.1 hx
  rw [removeTx, removeTxWithReason_eq he' (by decide), maybeCompactOrder_txs, lookup_cascadeDrop,
    if_pos (.inl rfl)] at hex
  cases hex

/-- Room has been made, or nothing was left to evict. -/
theorem room_of_evictLoop {fuel : Nat} (hm : Indexed m) (hfuel : m.txs.size ≤ fuel)
    (hroom : (evictLoop e fuel m).1 = true) :
    (evictLoop e fuel m).2.needsEviction e = false ∨
      (evictLoop e fuel m).2.feeIndex.last? = none := by
  induction fuel generalizing m with
  | zero =>
    refine .inr ?_
    cases hlast : m.feeIndex.last? with
    | none => exact hlast
    | some worst =>
      have := size_pos_of_last hm hlast
      omega
  | succ fuel ih =>
    rw [evictLoop] at hroom ⊢
    cases hneeds : m.needsEviction e with
    | false => exact .inl hneeds
    | true =>
    cases hlast : m.feeIndex.last? with
    | none => exact .inr hlast
    | some worst =>
    rw [hneeds, hlast] at hroom
    rw [Bool.not_true, if_neg Bool.false_ne_true] at hroom ⊢
    dsimp only at hroom ⊢
    generalize (if e.sizeBytes = 0 then 1 else e.sizeBytes) = newSizeCmp at hroom ⊢
    split at hroom
    · cases hroom
    next hbeats =>
    rw [if_neg hbeats]
    obtain ⟨e', he', -⟩ := hm worst (SortedSet.mem_of_last? hlast)
    have hpending : (m.txs.lookup worst.txHash).isSome = true := by rw [he']; rfl
    have hless := size_removeTx_lt hpending
    have hindexed := kept_indexed.removeTxWithReason worst.txHash .manual hm
    exact ih hindexed (by omega) hroom

end

/-! ## The maxima -/

/-- What is pending is within the maxima of a configuration. -/
structure Bounded (config : MempoolConfig) (m : Mempool) : Prop where
  config_eq : m.config = config
  count : m.txs.size ≤ config.maxTransactions
  bytes : m.txs.total (·.sizeBytes) ≤ config.maxBytes
  exMem : m.txs.total (·.exUnitsMem) ≤ config.maxExMem
  exSteps : m.txs.total (·.exUnitsSteps) ≤ config.maxExSteps
  refs : m.txs.total (·.refScriptsBytes) ≤ config.maxRefScriptsBytes

section
variable {config : MempoolConfig} {m m' : Mempool} {e : MempoolEntry}
  {table : Listing.Enumeration Hash32}

theorem Bounded.of_sub (hm : Bounded config m) (hconfig : m'.config = m.config)
    (h : ∀ x e, m'.txs.lookup x = some e → m.txs.lookup x = some e) : Bounded config m' where
  config_eq := hconfig.trans hm.config_eq
  count := by
    refine le_trans (Finset.card_le_card fun x hx => ?_) hm.count
    obtain ⟨ex, hex⟩ := mem_keys_iff.1 hx
    exact mem_keys_iff.2 ⟨ex, h x ex hex⟩
  bytes := (total_le_of_sub h).trans hm.bytes
  exMem := (total_le_of_sub h).trans hm.exMem
  exSteps := (total_le_of_sub h).trans hm.exSteps
  refs := (total_le_of_sub h).trans hm.refs

theorem kept_config (config : MempoolConfig) : Kept fun m => m.config = config where
  drop m h hm := by
    cases hlookup : m.txs.lookup h with
    | none => rwa [drop_of_none hlookup]
    | some e => rw [drop_of_some hlookup]; exact hm
  edges _ _ hm := hm
  compact m hm := by
    rw [maybeCompactOrder]
    split <;> exact hm

theorem kept_bounded (config : MempoolConfig) : Kept (Bounded config) where
  drop m h hm := hm.of_sub ((kept_config m.config).drop m h rfl) fun _ _ => pending_of_drop
  edges _ _ hm := hm.of_sub rfl fun _ _ => id
  compact m hm := hm.of_sub ((kept_config m.config).compact m rfl) fun _ _ h => by
    rwa [maybeCompactOrder_txs] at h

theorem enter_config (m : Mempool) (e : MempoolEntry) : (m.enter e).config = m.config := by
  unfold enter pushOrder Mempool.maybeCompactOrder
  dsimp only
  split <;> rfl

/-- A sum with the newcomer, when the machine word of the old sum has room for it. -/
theorem total_insert_le {f : MempoolEntry → Nat} {txs : FinMap Hash32 MempoolEntry} {max : Nat}
    (hnew : txs.lookup e.txHash = none) (hfits : total f (txs.insert e.txHash e) ≤ u64Max)
    (hroom : wrapAdd (txs.total f % 2 ^ 64) (f e) ≤ max) :
    total f (txs.insert e.txHash e) ≤ max := by
  have hinsert := total_insert (f := f) e.txHash e txs
  rw [weightAt, hnew, elim_none, add_zero] at hinsert
  have hword : total f (txs.insert e.txHash e) < 2 ^ 64 := lt_succ_of_le hfits
  rwa [wrapAdd_mod, ← hinsert, mod_eq_of_lt hword] at hroom

/-- A newcomer that no maximum excludes by itself, beside which the sums fit their words. -/
structure Modest (m : Mempool) (e : MempoolEntry) : Prop where
  exMem : e.exUnitsMem ≤ m.config.maxExMem
  exSteps : e.exUnitsSteps ≤ m.config.maxExSteps
  refs : e.refScriptsBytes ≤ m.config.maxRefScriptsBytes
  fits : Fits (m.txs.insert e.txHash e)

theorem Bounded.added (hm : Bounded config m)
    (haccounted : Accounted m) (hmodest : Modest m e) (h : Added table m e m') :
    Bounded config m' := by
  have hindexed : Indexed m := by
    intro k hk
    obtain ⟨x, ex, hex, hkey⟩ := (haccounted.fees k).1 hk
    rw [← hkey]
    exact ⟨ex, hex, rfl⟩
  have hroom : (m.ensureCapacity e).2.needsEviction e = false ∨
      (m.ensureCapacity e).2.feeIndex.last? = none :=
    room_of_evictLoop hindexed (le_refl _) h.room
  have hm₁ : Bounded config (m.ensureCapacity e).2 :=
    (kept_bounded config).byRemoval.ensureCapacity e hm
  have haccounted₁ : Accounted (m.ensureCapacity e).2 :=
    kept_accounted.byRemoval.ensureCapacity e haccounted
  have hnew₁ := lookup_ensureCapacity_none (e := e) h.new
  have hsub : ∀ x ex, (m.ensureCapacity e).2.txs.lookup x = some ex → m.txs.lookup x = some ex :=
    fun x ex hex => pending_of_ensureCapacity hex
  obtain ⟨edges, -, rfl⟩ := h.linked
  have hcount := h.count
  have hbytes := h.bytes
  rw [haccounted₁.count, hm₁.config_eq] at hcount
  rw [haccounted₁.bytes, hm₁.config_eq] at hbytes
  generalize (m.ensureCapacity e).2 = m₁ at hroom hm₁ haccounted₁ hnew₁ hsub hcount hbytes
  have hfits : Fits (m₁.txs.insert e.txHash e) := hmodest.fits.insert_of_sub hsub
  -- each of the other sums: the room was seen, or the newcomer is alone
  have hsum : ∀ {f} {total max}, total = m₁.txs.total f % 2 ^ 64 →
      FinMap.total f (m₁.txs.insert e.txHash e) ≤ u64Max → f e ≤ max →
      (m₁.needsEviction e = false → wrapAdd total (f e) ≤ max) →
      FinMap.total f (m₁.txs.insert e.txHash e) ≤ max := by
    intro f total max htotal hword halone hseen
    rcases hroom with hneeds | hlast
    · exact total_insert_le hnew₁ hword (htotal ▸ hseen hneeds)
    have hempty : m₁.txs.total f = 0 := by
      refine Finset.sum_eq_zero fun x hx => ?_
      obtain ⟨ex, hex⟩ := mem_keys_iff.1 hx
      exact absurd ((haccounted₁.fees _).2 ⟨x, ex, hex, rfl⟩) (SortedSet.last?_eq_none.1 hlast _)
    have hinsert := total_insert (f := f) e.txHash e m₁.txs
    rw [weightAt, hnew₁, elim_none, add_zero, hempty, zero_add] at hinsert
    rw [hinsert]
    exact halone
  rw [← hm.config_eq] at hm₁ hcount hbytes ⊢
  have hdims : m₁.needsEviction e = false → wrapAdd m₁.totalExMem e.exUnitsMem ≤ m.config.maxExMem ∧
      wrapAdd m₁.totalExSteps e.exUnitsSteps ≤ m.config.maxExSteps ∧
      wrapAdd m₁.totalRefScriptsBytes e.refScriptsBytes ≤ m.config.maxRefScriptsBytes := by
    intro hneeds
    simp only [needsEviction, Bool.or_eq_false_iff, decide_eq_false_iff_not, hm₁.config_eq,
      not_lt, gt_iff_lt] at hneeds
    exact ⟨hneeds.1.1.2, hneeds.1.2, hneeds.2⟩
  refine ⟨(enter_config _ _).trans hm₁.config_eq, ?_, ?_, ?_, ?_, ?_⟩ <;> rw [enter_txs]
  · rw [size_insert_of_lookup_none hnew₁]
    exact hcount
  · exact total_insert_le hnew₁ hfits.bytes hbytes
  · exact hsum haccounted₁.exMem hfits.exMem hmodest.exMem fun h => (hdims h).1
  · exact hsum haccounted₁.exSteps hfits.exSteps hmodest.exSteps fun h => (hdims h).2.1
  · exact hsum haccounted₁.refs hfits.refs hmodest.refs fun h => (hdims h).2.2

theorem Bounded.submitted (hm : Bounded config m)
    (haccounted : Accounted m) (hmodest : m.txs.lookup e.txHash = none → Modest m e)
    (h : Submitted table m e m') : Bounded config m' := by
  have hm₁ := (kept_bounded config).byRemoval.ensureCapacity e hm
  cases h with
  | unchanged => exact hm
  | refused => exact hm₁
  | tooDeep => exact hm₁.of_sub rfl fun _ _ => id
  | added h => exact hm.added haccounted (hmodest h.new) h

end

/-! ## Chains of edges -/

/-- A chain of `n` elements along the edges ends at `a`. -/
inductive Above (edges : FinMap Hash32 (List Hash32)) : Nat → Hash32 → Prop where
  | one (a : Hash32) : Above edges 1 a
  | next {n : Nat} {k a : Hash32} (h : Above edges n k) (hedge : a ∈ children edges k) :
      Above edges (n + 1) a

/-- No element is among the children of two. -/
def OneParent (edges : FinMap Hash32 (List Hash32)) : Prop :=
  ∀ k k' a, a ∈ children edges k → a ∈ children edges k' → k = k'

section
variable {table : Listing.Enumeration Hash32} {edges edges' : FinMap Hash32 (List Hash32)}
  {a h p : Hash32}

theorem Above.mono {n : Nat} (h : Above edges n a)
    (hsub : ∀ k, children edges k ⊆ children edges' k) : Above edges' n a := by
  induction h with
  | one a => exact .one a
  | next _ hedge ih => exact ih.next (hsub _ hedge)

/-- With one parent each, a climb that succeeds has seen all there is. -/
theorem le_of_climb (hone : OneParent edges) {left n : Nat}
    (h : climb table edges left a = .ok ()) (habove : Above edges n a) : n ≤ left := by
  induction left generalizing n a with
  | zero => cases h
  | succ left ih =>
    cases habove with
    | one => exact succ_le_succ (zero_le left)
    | @next n k a habove hedge =>
    rw [climb] at h
    cases hparent : parentOf table edges a with
    | none =>
      rw [parentOf, find?_eq_none] at hparent
      refine absurd (decide_eq_true hedge) (hparent k ?_)
      exact table.mem_list.2 (mem_keys.2 (isSome_of_mem_children hedge))
    | some g =>
    rw [hparent] at h
    have hk : k = g := hone k g a hedge (by simpa using find?_some hparent)
    subst hk
    exact succ_le_succ (ih h habove)

/-- The edges after linking a newcomer with one pending parent: the old ones, and possibly one from
the parent, whose chain then has room. -/
structure Grown (edges : FinMap Hash32 (List Hash32)) (p h : Hash32)
    (edges' : FinMap Hash32 (List Hash32)) : Prop where
  old : ∀ k, children edges k ⊆ children edges' k
  new : ∀ k a, a ∈ children edges' k → a ∈ children edges k ∨
    k = p ∧ a = h ∧ ∀ n, Above edges n p → n < virtualChainMaxDepth

theorem mem_children_insert_iff {k : Hash32} :
    a ∈ children (edges.insert p (children edges p ++ [h])) k ↔
      a ∈ children edges k ∨ k = p ∧ a = h := by
  rw [children, lookup_insert_ite]
  split
  · next heq => simp [heq]
  · next hne => simp [hne, children]

theorem OneParent.grown (hone : OneParent edges) (hgrown : Grown edges p h edges')
    (hp : ∀ k, h ∈ children edges k → k = p) : OneParent edges' := by
  intro k k' a hk hk'
  rcases hgrown.new k a hk with hk | ⟨rfl, rfl, -⟩ <;>
    rcases hgrown.new k' a hk' with hk' | ⟨rfl, ha, -⟩
  · exact hone k k' a hk hk'
  · exact hp k (ha ▸ hk)
  · exact (hp k' hk').symm
  · rfl

theorem grown_linkParents {virtualUtxo : FinMap TransactionInput TransactionOutput}
    {inputs : List TransactionInput} (hone : OneParent edges)
    (hp : ∀ k, h ∈ children edges k → k = p)
    (hparent : ∀ i ∈ inputs, (virtualUtxo.lookup i).isSome → i.transactionId ≠ h →
      i.transactionId = p)
    (hgrown : Grown edges p h edges') :
    Grown edges p h (linkParents table virtualUtxo h inputs edges').2 := by
  induction inputs generalizing edges' with
  | nil => exact hgrown
  | cons i inputs ih =>
    rw [forall_mem_cons] at hparent
    rw [linkParents]
    split
    · next hpending =>
      have hi := hparent.1 hpending.1 hpending.2
      split
      · exact hgrown
      next hclimb =>
      refine ih hparent.2 ⟨fun k a ha => ?_, fun k a ha => ?_⟩
      · exact mem_children_insert_iff.2 (.inl (hgrown.old k ha))
      · rcases mem_children_insert_iff.1 ha with ha | ⟨rfl, rfl⟩
        · exact hgrown.new k a ha
        · refine .inr ⟨hi, rfl, fun n hn => ?_⟩
          have hle := le_of_climb (hone.grown hgrown hp) hclimb (hi ▸ hn.mono hgrown.old)
          exact lt_of_le_of_lt hle (by decide)
    · exact ih hparent.2 hgrown

/-- No chain becomes longer than allowed if nothing hangs on the newcomer. -/
theorem above_le_of_grown (hgrown : Grown edges p h edges')
    (hshort : ∀ n a, Above edges n a → n ≤ virtualChainMaxDepth)
    (hp : ∀ k, h ∈ children edges k → k = p) (hph : p ≠ h)
    (hleaf : children edges h = []) {n : Nat} (habove : Above edges' n a) :
    n ≤ virtualChainMaxDepth := by
  have hout : ∀ {b}, b ∉ children edges' h := by
    intro b hb
    rcases hgrown.new h b hb with hb | ⟨heq, -⟩
    · rw [hleaf] at hb
      cases hb
    · exact hph heq.symm
  -- a chain to anything but the newcomer was there before
  have hother : ∀ {n b}, Above edges' n b → b ≠ h → Above edges n b := by
    intro n b hb
    induction hb with
    | one b => exact fun _ => .one b
    | @next n k b _ hedge ih =>
      intro hbh
      have hkh : k ≠ h := fun heq => hout (heq ▸ hedge)
      rcases hgrown.new k b hedge with hedge | ⟨-, heq, -⟩
      · exact (ih hkh).next hedge
      · exact absurd heq hbh
  by_cases hah : a = h
  · subst hah
    cases habove with
    | one => decide
    | @next n k _ habove hedge =>
    have hkh : k ≠ a := fun heq => hout (heq ▸ hedge)
    rcases hgrown.new k a hedge with hold | ⟨rfl, -, hroom⟩
    · exact hshort (n + 1) a ((hother habove hkh).next hold)
    · exact hroom n (hother habove hkh)
  · exact hshort n a (hother habove hah)

end

/-! ## Chains of pending transactions -/

/-- Both are pending, and the second spends an output of the first. -/
def Spends (m : Mempool) (h c : Hash32) : Prop :=
  ∃ p e, m.txs.lookup h = some p ∧ m.txs.lookup c = some e ∧
    ∃ i ∈ e.tx.body.inputs, i.transactionId = h ∧ i.index.toNat < p.tx.body.outputs.length

instance (m : Mempool) (h c : Hash32) : Decidable (m.Spends h c) :=
  decidable_of_iff (∃ p ∈ m.txs.lookup h, ∃ e ∈ m.txs.lookup c,
    ∃ i ∈ e.tx.body.inputs, i.transactionId = h ∧ i.index.toNat < p.tx.body.outputs.length)
    ⟨fun ⟨p, hp, e, he, hi⟩ => ⟨p, e, hp, he, hi⟩, fun ⟨p, e, hp, he, hi⟩ => ⟨p, hp, e, he, hi⟩⟩

/-- The edges tell the chains of pending transactions. A hash is always submitted with the same
transaction. -/
structure Tracked (txOf : Hash32 → Transaction) (m : Mempool) : Prop where
  accounted : Accounted m
  fits : Fits m.txs
  tx_eq : ∀ h e, m.txs.lookup h = some e → e.tx = txOf h
  spends : ∀ h c, m.Spends h c → c ∈ children m.dependents h
  shown : ∀ k h, h ∈ children m.dependents k →
    ∃ i ∈ (txOf h).body.inputs, i.transactionId = k ∧ (m.virtualUtxo.lookup i).isSome
  oneParent : OneParent m.dependents
  short : ∀ n a, Above m.dependents n a → n ≤ virtualChainMaxDepth

section
variable {txOf : Hash32 → Transaction} {m m' : Mempool}

theorem tracked_new (txOf : Hash32 → Transaction) (config : MempoolConfig) :
    Tracked txOf (new config) where
  accounted := accounted_new config
  fits := fits_empty
  tx_eq _ _ h := nomatch h
  spends h c := by
    rintro ⟨p, e, hp, -⟩
    cases hp
  shown _ _ h := (not_mem_nil h).elim
  oneParent _ _ _ h := (not_mem_nil h).elim
  short n a h := by
    cases h with
    | one => decide
    | next _ hedge => exact (not_mem_nil hedge).elim

section
variable (hm : Tracked txOf m)
include hm

/-- An edge leaves from a pending transaction. -/
theorem Tracked.pending_of_edge {k h : Hash32}
    (hedge : h ∈ children m.dependents k) : (m.txs.lookup k).isSome = true := by
  obtain ⟨i, -, rfl, hshown⟩ := hm.shown k h hedge
  rw [hm.accounted.outputs] at hshown
  cases hlookup : m.txs.lookup i.transactionId with
  | none =>
    rw [hlookup] at hshown
    cases hshown
  | some _ => rfl

/-- Taking transactions out together with the edges from them. -/
theorem Tracked.of_sub (haccounted : Accounted m')
    (hsub : ∀ x e, m'.txs.lookup x = some e → m.txs.lookup x = some e)
    (hedges : ∀ k, (m'.txs.lookup k).isSome → m'.dependents.lookup k = m.dependents.lookup k)
    (hgone : ∀ k, (m'.dependents.lookup k).isSome → m'.txs.lookup k = m.txs.lookup k ∧
      m'.dependents.lookup k = m.dependents.lookup k) : Tracked txOf m' := by
  have hold : ∀ k, children m'.dependents k ⊆ children m.dependents k := by
    intro k a ha
    rwa [children_of_lookup (hgone k (isSome_of_mem_children ha)).2] at ha
  refine ⟨haccounted, hm.fits.of_sub hsub, fun h e he => hm.tx_eq h e (hsub h e he), ?_, ?_, ?_, ?_⟩
  · rintro h c ⟨p, e, hp, he, hi⟩
    have hedge := hm.spends h c ⟨p, e, hsub h p hp, hsub c e he, hi⟩
    rwa [children_of_lookup (hedges h (by rw [hp]; rfl))]
  · intro k h hedge
    obtain ⟨i, hi, rfl, hshown⟩ := hm.shown k h (hold k hedge)
    refine ⟨i, hi, rfl, hm.accounted.isSome_of_pending haccounted ?_ hshown⟩
    exact (hgone i.transactionId (isSome_of_mem_children hedge)).1
  · exact fun k k' a hk hk' => hm.oneParent k k' a (hold k hk) (hold k' hk')
  · exact fun n a h => hm.short n a (h.mono hold)

theorem Tracked.maybeCompactOrder : Tracked txOf m.maybeCompactOrder :=
  hm.of_sub hm.accounted.maybeCompactOrder (fun _ _ h => by rwa [maybeCompactOrder_txs] at h)
    (fun _ _ => by rw [maybeCompactOrder_dependents])
    fun _ _ => ⟨by rw [maybeCompactOrder_txs], by rw [maybeCompactOrder_dependents]⟩

theorem Tracked.cascadeDrop (x : Hash32) : Tracked txOf (m.cascadeDrop x) := by
  have htaken := cascade_spec m.dependents x
  refine hm.of_sub (kept_accounted.foldl_drop _ (kept_accounted.edges _ _ (hm.accounted.drop x)))
    (fun h e he => ?_) (fun k hk => ?_) fun k hk => ?_
  · rw [lookup_cascadeDrop] at he
    split at he
    · cases he
    · exact he
  · rw [lookup_cascadeDrop] at hk
    rw [cascadeDrop_dependents, htaken.left_eq]
    split at hk
    · cases hk
    · next hout => exact if_neg hout
  · rw [cascadeDrop_dependents, htaken.left_eq] at hk
    rw [lookup_cascadeDrop, cascadeDrop_dependents, htaken.left_eq]
    split at hk
    · cases hk
    · next hout => exact ⟨if_neg hout, if_neg hout⟩

theorem Tracked.removeTxWithReason (x : Hash32)
    (reason : MempoolRemoveReason) : Tracked txOf (m.removeTxWithReason x reason).2 := by
  cases hlookup : m.txs.lookup x with
  | none => rwa [removeTxWithReason_of_none hlookup]
  | some ex =>
  by_cases hreason : reason = .mined
  · rw [hreason, removeTxWithReason_mined hlookup]
    refine hm.of_sub (kept_accounted.edges _ _ (hm.accounted.drop x))
      (fun _ _ => pending_of_drop) (fun k hk => ?_) fun k hk => ?_
    · rw [drop_txs, lookup_erase_ite] at hk
      rw [lookup_erase_ite]
      split at hk
      · cases hk
      · next hne => exact if_neg hne
    · rw [lookup_erase_ite] at hk
      rw [drop_txs, lookup_erase_ite, lookup_erase_ite]
      split at hk
      · cases hk
      · next hne => exact ⟨if_neg hne, if_neg hne⟩
  · rw [removeTxWithReason_eq hlookup hreason]
    exact (hm.cascadeDrop x).maybeCompactOrder

end

theorem keptByRemoval_tracked (txOf : Hash32 → Transaction) : KeptByRemoval (Tracked txOf) where
  remove _ h reason _ hm := hm.removeTxWithReason h reason
  compact _ hm := hm.maybeCompactOrder

/-- A newcomer with at most one pending parent and no pending child. -/
structure Single (txOf : Hash32 → Transaction) (m : Mempool) (e : MempoolEntry) : Prop where
  tx_eq : e.tx = txOf e.txHash
  oneParent : ∀ i ∈ e.tx.body.inputs, ∀ j ∈ e.tx.body.inputs, (m.virtualUtxo.lookup i).isSome →
    (m.virtualUtxo.lookup j).isSome → i.transactionId = j.transactionId
  notSelf : ∀ i ∈ e.tx.body.inputs, i.transactionId ≠ e.txHash
  childless : ∀ h c, m.txs.lookup h = some c → ∀ i ∈ c.tx.body.inputs, i.transactionId ≠ e.txHash

variable {table : Listing.Enumeration Hash32} {e : MempoolEntry}

/-- What the linking of a single newcomer leaves. -/
theorem Tracked.linked (hm : Tracked txOf m) (hnew : m.txs.lookup e.txHash = none)
    (hsingle : Single txOf m e) {outcome : Except MempoolError Unit}
    {edges : FinMap Hash32 (List Hash32)}
    (hlink : linkParents table m.virtualUtxo e.txHash e.tx.body.inputs m.dependents =
      (outcome, edges)) :
    OneParent edges ∧ (∀ n a, Above edges n a → n ≤ virtualChainMaxDepth) ∧
      ∀ k h, h ∈ children edges k →
        ∃ i ∈ (txOf h).body.inputs, i.transactionId = k ∧ (m.virtualUtxo.lookup i).isSome := by
  have hleaf : children m.dependents e.txHash = [] := by
    refine eq_nil_iff_forall_not_mem.2 fun a ha => ?_
    have := hm.pending_of_edge ha
    rw [hnew] at this
    cases this
  have hlink' : (linkParents table m.virtualUtxo e.txHash e.tx.body.inputs m.dependents).2 =
    edges := by rw [hlink]
  by_cases hparent : ∃ i ∈ e.tx.body.inputs, (m.virtualUtxo.lookup i).isSome = true
  · obtain ⟨i, hi, hshown⟩ := hparent
    have hp : ∀ k, e.txHash ∈ children m.dependents k → k = i.transactionId := by
      intro k hk
      obtain ⟨j, hj, rfl, hj'⟩ := hm.shown k e.txHash hk
      rw [← hsingle.tx_eq] at hj
      exact hsingle.oneParent j hj i hi hj' hshown
    have hgrown : Grown m.dependents i.transactionId e.txHash edges := by
      rw [← hlink']
      exact grown_linkParents hm.oneParent hp
        (fun j hj hj' _ => hsingle.oneParent j hj i hi hj' hshown) ⟨fun _ _ => id, fun _ _ => .inl⟩
    refine ⟨hm.oneParent.grown hgrown hp, fun n a h => ?_, fun k h hedge => ?_⟩
    · exact above_le_of_grown hgrown hm.short hp (hsingle.notSelf i hi) hleaf h
    · rcases hgrown.new k h hedge with hold | ⟨rfl, rfl, -⟩
      · exact hm.shown k h hold
      · exact ⟨i, hsingle.tx_eq ▸ hi, rfl, hshown⟩
  · -- no input names a pending output: nothing is entered
    have hsame : ∀ inputs edges, (∀ i ∈ inputs, ¬ (m.virtualUtxo.lookup i).isSome = true) →
        (linkParents table m.virtualUtxo e.txHash inputs edges).2 = edges := by
      intro inputs edges hnone
      induction inputs with
      | nil => rfl
      | cons i inputs ih =>
        rw [forall_mem_cons] at hnone
        rw [linkParents, if_neg fun h => hnone.1 h.1]
        exact ih hnone.2
    rw [hsame _ _ fun i hi hshown => hparent ⟨i, hi, hshown⟩] at hlink'
    subst hlink'
    exact ⟨hm.oneParent, hm.short, hm.shown⟩

theorem Single.of_ensureCapacity (hm : Accounted m) (h : Single txOf m e) :
    Single txOf (m.ensureCapacity e).2 e := by
  have hm' := kept_accounted.byRemoval.ensureCapacity e hm
  have hshown : ∀ i, ((m.ensureCapacity e).2.virtualUtxo.lookup i).isSome →
      (m.virtualUtxo.lookup i).isSome := by
    intro i hi
    refine hm'.isSome_of_pending hm ?_ hi
    cases hlookup : (m.ensureCapacity e).2.txs.lookup i.transactionId with
    | none =>
      rw [hm'.outputs, hlookup] at hi
      cases hi
    | some ex => exact pending_of_ensureCapacity hlookup
  exact ⟨h.tx_eq, fun i hi j hj hi' hj' => h.oneParent i hi j hj (hshown i hi') (hshown j hj'),
    h.notSelf, fun x c hc => h.childless x c (pending_of_ensureCapacity hc)⟩

theorem Tracked.added (hm : Tracked txOf m) (hsingle : Single txOf m e)
    (hfits : Fits (m.txs.insert e.txHash e)) (h : Added table m e m') (haccounted : Accounted m') :
    Tracked txOf m' := by
  have hm₁ := (keptByRemoval_tracked txOf).ensureCapacity e hm
  have hsingle₁ := hsingle.of_ensureCapacity hm.accounted
  have hnew₁ := lookup_ensureCapacity_none (e := e) h.new
  have hsub₁ : ∀ x ex, (m.ensureCapacity e).2.txs.lookup x = some ex → m.txs.lookup x = some ex :=
    fun x ex hex => pending_of_ensureCapacity hex
  obtain ⟨edges, hlink, rfl⟩ := h.linked
  generalize (m.ensureCapacity e).2 = m₁ at hm₁ hsingle₁ hnew₁ hsub₁ hlink haccounted
  obtain ⟨hone, hshort, hshown⟩ := hm₁.linked hnew₁ hsingle₁ hlink
  have hsub := children_prefix_linkParents table m₁.virtualUtxo e.txHash e.tx.body.inputs
    m₁.dependents
  rw [hlink] at hsub
  refine ⟨haccounted, ?_, ?_, ?_, ?_, ?_, ?_⟩
  · rw [enter_txs]
    exact hfits.insert_of_sub hsub₁
  · intro x ex hex
    rw [enter_txs, lookup_insert_ite] at hex
    split at hex
    · next heq =>
      cases hex
      rw [heq]
      exact hsingle.tx_eq
    · exact hm₁.tx_eq x ex hex
  · rintro x c ⟨p, ec, hp, hc, i, hi, hix, hindex⟩
    rw [enter_txs, lookup_insert_ite] at hp hc
    rw [enter_dependents]
    -- nothing pending spends the newcomer, itself included
    have hx : x ≠ e.txHash := by
      rintro rfl
      split at hc
      · cases hc
        exact hsingle.notSelf i hi hix
      · exact hsingle.childless c ec (hsub₁ c ec hc) i hi hix
    rw [if_neg hx] at hp
    split at hc
    · next hce =>
      cases hc
      rw [hce, ← hix]
      refine mem_children_linkParents hlink hi ?_ (hix ▸ hx)
      have hp' := hix ▸ hp
      rw [hm₁.accounted.outputs, hp', bind_some,
        publishedOutput_eq_getElem? (hm₁.fits.outputs x p hp), getElem?_eq_getElem hindex]
      rfl
    · exact (hsub x).subset (hm₁.spends x c ⟨p, ec, hp, hc, i, hi, hix, hindex⟩)
  · intro k x hedge
    rw [enter_dependents] at hedge
    obtain ⟨i, hi, rfl, hi'⟩ := hshown k x hedge
    refine ⟨i, hi, rfl, hm₁.accounted.isSome_of_pending haccounted ?_ hi'⟩
    rw [enter_txs, lookup_insert_ite, if_neg fun heq => ?_]
    rw [hm₁.accounted.outputs, heq, hnew₁] at hi'
    cases hi'
  · rw [enter_dependents]
    exact hone
  · rw [enter_dependents]
    exact hshort

theorem Tracked.submitted (hm : Tracked txOf m)
    (hnewcomer : m.txs.lookup e.txHash = none → Modest m e ∧ Single txOf m e)
    (h : Submitted table m e m') (haccounted : Accounted m') : Tracked txOf m' := by
  have hm₁ := (keptByRemoval_tracked txOf).ensureCapacity e hm
  cases h with
  | unchanged => exact hm
  | refused => exact hm₁
  | tooDeep hnew hfree hlink =>
    obtain ⟨hone, hshort, hshown⟩ := hm₁.linked (lookup_ensureCapacity_none hnew)
      ((hnewcomer hnew).2.of_ensureCapacity hm.accounted) hlink
    have hsub := children_prefix_linkParents table (m.ensureCapacity e).2.virtualUtxo e.txHash
      e.tx.body.inputs (m.ensureCapacity e).2.dependents
    rw [hlink] at hsub
    rw [claim_release (hm.accounted.free_of_ensureCapacity hfree)]
    exact ⟨hm₁.accounted.of_eq _ _ _, hm₁.fits, hm₁.tx_eq,
      fun x c hc => (hsub x).subset (hm₁.spends x c hc), hshown, hone, hshort⟩
  | added h =>
    obtain ⟨hmodest, hsingle⟩ := hnewcomer h.new
    exact hm.added hsingle hmodest.fits h haccounted

end

/-! ## Runs -/

/-- The calls after which the bounds hold: a newcomer is within each maximum by itself, has at most
one pending parent and no pending child; draining finds every pending transaction in the queue; the
configuration stays. -/
def Prudent (txOf : Hash32 → Transaction) (m : Mempool) : Call → Prop
  | .addTxFull _ e => m.txs.lookup e.txHash = none → Modest m e ∧ Single txOf m e
  | .updateCapacityFromParams .. => False
  | .drainAll => m.Queued
  | _ => True

variable {txOf : Hash32 → Transaction} {m : Mempool}

theorem Reached.bounded {config : MempoolConfig}
    (h : Reached config (Prudent txOf) m) : Bounded config m ∧ Tracked txOf m := by
  induction h with
  | new =>
    refine ⟨⟨rfl, zero_le _, zero_le _, zero_le _, zero_le _, zero_le _⟩, ?_⟩
    exact tracked_new txOf config
  | @call m c h hc ih =>
    obtain ⟨hbounded, htracked⟩ := ih
    have hcleared : Bounded config (Mempool.new m.config) ∧ Tracked txOf (Mempool.new m.config) :=
      ⟨⟨hbounded.config_eq, zero_le _, zero_le _, zero_le _, zero_le _,
        zero_le _⟩, tracked_new txOf _⟩
    cases c with
    | addTxFull table e =>
      have houtcome := submitted table m e
      exact ⟨hbounded.submitted htracked.accounted (fun hnew => (hc hnew).1) houtcome,
        htracked.submitted hc houtcome (htracked.accounted.addTxFull table e)⟩
    | updateCapacityFromParams size mem steps => exact hc.elim
    | drainAll =>
      rw [Mempool.call, drainAll_of_queued hc]
      exact hcleared
    | clear => exact hcleared
    | _ =>
      exact ⟨(kept_bounded config).call rfl hbounded,
        (keptByRemoval_tracked txOf).call rfl htracked htracked.removeTxWithReason⟩

/-- A chain of pending transactions is a chain along the edges. -/
theorem above_of_isChain (hm : Tracked txOf m)
    {l : List Hash32} {a : Hash32} (h : (l ++ [a]).IsChain m.Spends) :
    Above m.dependents (l.length + 1) a := by
  induction l using List.reverseRecOn generalizing a with
  | nil => exact .one a
  | append_singleton l k ih =>
    have hinit := List.IsChain.left_of_append h
    rw [append_assoc] at h
    have hlast : m.Spends k a := by
      have := List.IsChain.right_of_append h
      simpa using this
    rw [length_append, length_singleton]
    exact (ih hinit).next (hm.spends k a hlast)

/-- In a run of prudent calls the totals stay within the configured maxima and no chain of pending
transactions is longer than the maximum depth. -/
theorem bounded_of_prudent {txOf : Hash32 → Transaction} {config : MempoolConfig} {m : Mempool}
    (h : Reached config (Prudent txOf) m) :
    Bounded config m ∧ ∀ l : List Hash32, l.IsChain m.Spends → l.length ≤ virtualChainMaxDepth := by
  obtain ⟨hbounded, htracked⟩ := h.bounded
  refine ⟨hbounded, fun l hl => ?_⟩
  rcases eq_nil_or_concat' l with rfl | ⟨l, a, rfl⟩
  · decide
  · rw [length_append, length_singleton]
    exact htracked.short _ a (above_of_isChain htracked hl)

/-- Two transactions of which one spends an output of the other. -/
theorem chain_bounded :
    let m := (new {}).submitAll (family.take 2)
    m.totalBytes = 500 ∧ m.Spends 1 2 ∧ Bounded {} m ∧
      ∀ l : List Hash32, l.IsChain m.Spends → l.length ≤ virtualChainMaxDepth := by
  let es := family.take 2
  have htotals : ∀ i (hi : i < es.length), ∀ f ∈ [MempoolEntry.sizeBytes,
      MempoolEntry.exUnitsMem, MempoolEntry.exUnitsSteps, MempoolEntry.refScriptsBytes],
      FinMap.total f (((new {}).submitAll (es.take i)).txs.insert es[i].txHash es[i]) ≤
        u64Max := by decide +kernel
  have hunits : ∀ e ∈ es, e.exUnitsMem = 0 ∧ e.exUnitsSteps = 0 ∧ e.refScriptsBytes = 0 := by
    decide
  -- each spends one input, and none spends an output of one that comes later
  have hnames : ∀ i (hi : i < es.length), ∀ c ∈ es.take (i + 1), ∀ j ∈ c.tx.body.inputs,
      j.transactionId ≠ es[i].txHash := by decide
  have hone : ∀ e ∈ es, ∀ i ∈ e.tx.body.inputs, ∀ j ∈ e.tx.body.inputs, i = j := by decide
  have htx : ∀ i (hi : i < es.length), es[i].tx =
      (spending es[i].txHash (if es[i].txHash = 1 then [⟨9, 0⟩] else [⟨1, 0⟩])).tx
    | 0, _ | 1, _ => rfl
  have hreached : Reached {} (Prudent fun h => (spending h (if h = 1 then [⟨9, 0⟩] else
      [⟨1, 0⟩])).tx) ((new {}).submitAll es) := by
    refine reached_submitted fun i hi _ => ⟨?_, htx i hi, ?_, ?_, fun h c hc => ?_⟩
    · obtain ⟨hmem, hsteps, hrefs⟩ := hunits _ (getElem_mem hi)
      exact ⟨hmem.le.trans (zero_le _), hsteps.le.trans (zero_le _), hrefs.le.trans (zero_le _),
        fits_submitAll (by decide) hi (htotals i hi)⟩
    · exact fun j hj k hk _ _ => congrArg _ (hone _ (getElem_mem hi) j hj k hk)
    · refine hnames i hi _ ?_
      rw [take_add_one, getElem?_eq_getElem hi]
      exact mem_append_right _ (mem_singleton_self _)
    · refine hnames i hi c ?_
      rw [take_add_one]
      exact mem_append_left _ ((lookup_submitAll hc).resolve_left nofun)
  obtain ⟨hbounded, hchains⟩ := bounded_of_prudent hreached
  exact ⟨by decide +kernel, by decide +kernel, hbounded, hchains⟩

/-- A chain of four; a newcomer that spends its last output and that of a transaction beside it;
one more that spends the newcomer. -/
def joined : List MempoolEntry :=
  [spending 1 [⟨9, 0⟩], spending 2 [⟨8, 0⟩], spending 3 [⟨2, 0⟩], spending 4 [⟨3, 0⟩],
    spending 5 [⟨4, 0⟩], spending 6 [⟨1, 0⟩, ⟨5, 0⟩], spending 7 [⟨6, 0⟩]]

/-- An empty mempool takes a transaction over the maximum; the climb from a transaction with two
parents sees one of them only. -/
theorem bounds_exceeded :
    (∃ m, Reached {} (fun _ _ => True) m ∧
      ¬ m.txs.total (·.exUnitsMem) ≤ ({} : MempoolConfig).maxExMem) ∧
    ∃ m, Reached {} (fun _ _ => True) m ∧
      ∃ l : List Hash32, l.IsChain m.Spends ∧ virtualChainMaxDepth < l.length := by
  refine ⟨⟨_, reached_submitAll .new [heavy], by decide +kernel⟩,
    _, reached_submitAll .new joined, [2, 3, 4, 5, 6, 7], by decide +kernel, by decide⟩

end Mempool

end Dugite
