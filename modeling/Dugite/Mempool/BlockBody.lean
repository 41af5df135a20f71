import Dugite.Mempool.Dependencies

/-!
# Block bodies

The transactions for a block are a prefix of the candidates: the pending transactions of the queue
in the order of their first places, without those that have expired (`select_eq_fill`). `Sorted` says
that the queue is in the order of the dependencies. Every call keeps it but a submission that comes
after what spends it, or whose hash still has its old place in the queue.
-/

namespace Dugite

open List

namespace Mempool

/-! ## Candidates -/

/-- The candidates among a queue, those in `seen` apart. -/
def candidates (m : Mempool) (forgeSlot : Option Nat) :
    List Hash32 → Finset Hash32 → List (Hash32 × MempoolEntry)
  | [], _ => []
  | h :: queue, seen =>
    if h ∈ m.orderTombstones ∨ h ∈ seen then candidates m forgeSlot queue seen
    else match m.txs.lookup h with
      | none => candidates m forgeSlot queue (insert h seen)
      | some e =>
        if expiredAt forgeSlot e then candidates m forgeSlot queue (insert h seen)
        else (h, e) :: candidates m forgeSlot queue (insert h seen)

/-- Take candidates for as long as they fit. -/
def fill (limits : BlockLimits) : List (Hash32 × MempoolEntry) → Selection → Selection
  | [], s => s
  | c :: cs, s =>
    if s.result.length ≥ limits.maxCount then s
    else if s.fits limits c.2 then fill limits cs (s.push c.1 c.2)
    else s

/-- `fill` does not look at what was seen. -/
theorem fill_result_seen (limits : BlockLimits) (cs : List (Hash32 × MempoolEntry)) (s : Selection)
    (seen : Finset Hash32) : (fill limits cs { s with seen := seen }).result =
      (fill limits cs s).result := by
  induction cs generalizing s with
  | nil => rfl
  | cons c cs ih =>
    rw [fill, fill]
    split
    · rfl
    have hfits : Selection.fits { s with seen := seen } limits c.2 = s.fits limits c.2 := rfl
    rw [hfits]
    split
    · exact ih (s.push c.1 c.2)
    · rfl

variable {limits : BlockLimits}

theorem fill_of_full {s : Selection}
    (h : s.result.length ≥ limits.maxCount) (cs : List (Hash32 × MempoolEntry)) :
    fill limits cs s = s := by
  cases cs with
  | nil => rfl
  | cons c cs => rw [fill, if_pos h]

theorem selectFrom_result (m : Mempool) (limits : BlockLimits) (forgeSlot : Option Nat)
    (queue : List Hash32) (s : Selection) :
    (m.selectFrom limits forgeSlot queue s).result =
      (fill limits (m.candidates forgeSlot queue s.seen) s).result := by
  induction queue generalizing s with
  | nil => rfl
  | cons h queue ih =>
    -- A hash that is not a candidate is only noted as seen.
    have hpass : (m.selectFrom limits forgeSlot queue { s with seen := insert h s.seen }).result =
        (fill limits (m.candidates forgeSlot queue (insert h s.seen)) s).result :=
      (ih _).trans (fill_result_seen limits _ s _)
    rw [selectFrom, candidates]
    split
    · next hcount => rw [fill_of_full hcount]
    next hcount =>
    split_ifs
    · exact ih s
    cases hlookup : m.txs.lookup h with
    | none => exact hpass
    | some e =>
    dsimp only
    have hfits : Selection.fits { s with seen := insert h s.seen } limits e = s.fits limits e := rfl
    rw [hfits]
    split_ifs with hexpired hfit
    · exact hpass
    · rw [fill, if_neg hcount, if_pos hfit]
      exact (ih _).trans (fill_result_seen limits _ (s.push h e) (insert h s.seen))
    · rw [fill, if_neg hcount, if_neg hfit]

theorem select_eq_fill (m : Mempool) (limits : BlockLimits) (forgeSlot : Option Nat) :
    m.select limits forgeSlot = (fill limits (m.candidates forgeSlot m.order ∅) {}).result :=
  selectFrom_result m limits forgeSlot m.order {}

/-- What makes a hash of a queue a candidate. -/
structure Candidate (m : Mempool) (forgeSlot : Option Nat) (queue : List Hash32)
    (seen : Finset Hash32) (h : Hash32) (e : MempoolEntry) : Prop where
  queued : h ∈ queue
  unseen : h ∉ seen
  live : h ∉ m.orderTombstones
  pending : m.txs.lookup h = some e
  unexpired : expiredAt forgeSlot e = false

section
variable {m : Mempool} {forgeSlot : Option Nat}

/-- The head of a queue is passed over, or is the first candidate. -/
theorem candidates_cons (m : Mempool) (forgeSlot : Option Nat) (a : Hash32) (queue : List Hash32)
    (seen : Finset Hash32) :
    ((∀ e, ¬Candidate m forgeSlot (a :: queue) seen a e) ∧
      ∃ seen', (∀ h, h ≠ a → (h ∈ seen' ↔ h ∈ seen)) ∧ (a ∈ m.orderTombstones ∨ a ∈ seen') ∧
        candidates m forgeSlot (a :: queue) seen = candidates m forgeSlot queue seen') ∨
    ∃ e, Candidate m forgeSlot (a :: queue) seen a e ∧ candidates m forgeSlot (a :: queue) seen =
        (a, e) :: candidates m forgeSlot queue (insert a seen) := by
  have hinsert : ∀ h, h ≠ a → (h ∈ insert a seen ↔ h ∈ seen) := fun h hne => by
    rw [Finset.mem_insert, or_iff_right hne]
  have hself : a ∈ m.orderTombstones ∨ a ∈ insert a seen := .inr (Finset.mem_insert_self a seen)
  rw [candidates]
  split
  · next hskip =>
    refine .inl ⟨fun e he => ?_, seen, fun _ _ => Iff.rfl, hskip, rfl⟩
    exact hskip.elim he.live he.unseen
  next hskip =>
  obtain ⟨hlive, hunseen⟩ := not_or.1 hskip
  cases hlookup : m.txs.lookup a with
  | none =>
    refine .inl ⟨fun e he => ?_, insert a seen, hinsert, hself, rfl⟩
    rw [he.pending] at hlookup
    cases hlookup
  | some e =>
  dsimp only
  split
  · next hexpired =>
    refine .inl ⟨fun e' he' => ?_, insert a seen, hinsert, hself, rfl⟩
    obtain rfl : e' = e := Option.some.inj (he'.pending.symm.trans hlookup)
    exact absurd (he'.unexpired.symm.trans hexpired) (by decide)
  · next hexpired =>
    exact .inr ⟨e, ⟨mem_cons_self, hunseen, hlive, hlookup, Bool.eq_false_iff.2 hexpired⟩, rfl⟩

variable {queue : List Hash32} {seen : Finset Hash32} {h : Hash32} {e : MempoolEntry}

/-- Behind the head, the candidates are those of the rest of the queue. -/
theorem candidate_cons_iff {a : Hash32} {seen' : Finset Hash32}
    (hne : h ≠ a) (hseen : h ∈ seen' ↔ h ∈ seen) :
    Candidate m forgeSlot (a :: queue) seen h e ↔ Candidate m forgeSlot queue seen' h e :=
  ⟨fun hc => ⟨(mem_cons.1 hc.queued).resolve_left hne, fun hmem => hc.unseen (hseen.1 hmem),
      hc.live, hc.pending, hc.unexpired⟩,
    fun hc => ⟨mem_cons_of_mem a hc.queued, fun hmem => hc.unseen (hseen.2 hmem), hc.live,
      hc.pending, hc.unexpired⟩⟩

theorem mem_candidates :
    (h, e) ∈ m.candidates forgeSlot queue seen ↔ Candidate m forgeSlot queue seen h e := by
  induction queue generalizing seen with
  | nil => exact ⟨(nomatch ·), fun hc => nomatch hc.queued⟩
  | cons a queue ih =>
    rcases candidates_cons m forgeSlot a queue seen with
      ⟨hnot, seen', hseen, hself, heq⟩ | ⟨ea, ha, heq⟩
    · rw [heq, ih]
      by_cases hha : h = a
      · subst hha
        exact ⟨fun hc => (hself.elim hc.live hc.unseen).elim, fun hc => (hnot e hc).elim⟩
      · exact (candidate_cons_iff hha (hseen h hha)).symm
    rw [heq, mem_cons, ih, Prod.mk.injEq]
    by_cases hha : h = a
    · subst hha
      constructor
      · rintro (⟨-, rfl⟩ | hc)
        · exact ha
        · exact absurd (Finset.mem_insert_self h seen) hc.unseen
      · intro hc
        exact .inl ⟨rfl, Option.some.inj (hc.pending.symm.trans ha.pending)⟩
    · rw [candidate_cons_iff hha (by rw [Finset.mem_insert, or_iff_right hha]),
        or_iff_right fun heq => hha heq.1]

/-- The candidates stand in the order of the queue. -/
theorem candidates_sublist (m : Mempool) (forgeSlot : Option Nat) (queue : List Hash32)
    (seen : Finset Hash32) : ((m.candidates forgeSlot queue seen).map (·.1)).Sublist queue := by
  induction queue generalizing seen with
  | nil => exact .slnil
  | cons a queue ih =>
    rcases candidates_cons m forgeSlot a queue seen with ⟨-, seen', -, -, heq⟩ | ⟨ea, -, heq⟩
    · rw [heq]
      exact (ih seen').cons a
    · rw [heq]
      exact (ih _).cons_cons a

end

/-! ## A prefix that fits -/

variable (tx : Transaction)

/-- The memory units of the redeemers of a transaction, added up. -/
def redeemerMem : Nat := (tx.witnessSet.redeemers.map (·.exUnits.mem)).sum

/-- The step units of the redeemers of a transaction, added up. -/
def redeemerSteps : Nat := (tx.witnessSet.redeemers.map (·.exUnits.steps)).sum

theorem txExUnits_eq :
    txExUnits tx = ⟨min (redeemerMem tx) u64Max, min (redeemerSteps tx) u64Max⟩ := by
  have hfold : ∀ (rs : List Redeemer) (a b : Nat),
      rs.foldl (fun u r => ⟨satAdd u.mem r.exUnits.mem, satAdd u.steps r.exUnits.steps⟩)
        (⟨min a u64Max, min b u64Max⟩ : ExUnits) =
      ⟨min (a + (rs.map (·.exUnits.mem)).sum) u64Max,
        min (b + (rs.map (·.exUnits.steps)).sum) u64Max⟩ := by
    intro rs
    induction rs with
    | nil => exact fun _ _ => rfl
    | cons r rs ih =>
      intro a b
      have hsat : ∀ x y, satAdd (min x u64Max) y = min (x + y) u64Max := fun x y => by
        rw [satAdd]
        omega
      rw [foldl_cons, hsat, hsat, ih, map_cons, map_cons, sum_cons,
        sum_cons, Nat.add_assoc, Nat.add_assoc]
  have hstart := hfold tx.witnessSet.redeemers 0 0
  rw [Nat.zero_add, Nat.zero_add] at hstart
  exact hstart

/-- The sums over a list of transactions, in numbers without a bound. -/
structure Load where
  (size exMem exSteps : Nat)

def load (cs : List (Hash32 × MempoolEntry)) : Load where
  size := (cs.map (·.2.sizeBytes)).sum
  exMem := (cs.map (redeemerMem ·.2.tx)).sum
  exSteps := (cs.map (redeemerSteps ·.2.tx)).sum

/-- The sums are machine words. -/
def Load.Word (l : Load) : Prop := l.size ≤ u64Max ∧ l.exMem ≤ u64Max ∧ l.exSteps ≤ u64Max

/-- The list is within the limits. -/
structure Within (limits : BlockLimits) (cs : List (Hash32 × MempoolEntry)) : Prop where
  count : cs.length ≤ limits.maxCount
  size : (load cs).size ≤ limits.maxSize
  exMem : (load cs).exMem ≤ limits.maxBlockExMem
  exSteps : (load cs).exSteps ≤ limits.maxBlockExSteps

/-- The totals of a selection are the sums over what was chosen. -/
structure Selection.Tallied (s : Selection) : Prop where
  size : s.totalSize = (load s.result).size
  exMem : s.totalExMem = (load s.result).exMem
  exSteps : s.totalExSteps = (load s.result).exSteps

theorem load_append (cs ds : List (Hash32 × MempoolEntry)) :
    load (cs ++ ds) = ⟨(load cs).size + (load ds).size, (load cs).exMem + (load ds).exMem,
      (load cs).exSteps + (load ds).exSteps⟩ := by
  simp only [load, map_append, sum_append]

theorem load_cons (c : Hash32 × MempoolEntry) (cs : List (Hash32 × MempoolEntry)) :
    load (c :: cs) = ⟨c.2.sizeBytes + (load cs).size, redeemerMem c.2.tx + (load cs).exMem,
      redeemerSteps c.2.tx + (load cs).exSteps⟩ := by
  simp only [load, map_cons, sum_cons]

variable {cs : List (Hash32 × MempoolEntry)} {s : Selection}

/-- Without overflow, a transaction that fits keeps the selection within the limits. -/
theorem Selection.Tallied.push (hs : s.Tallied) {c : Hash32 × MempoolEntry}
    (hword : (load (s.result ++ c :: cs)).Word)
    (hcount : ¬s.result.length ≥ limits.maxCount) (hfits : s.fits limits c.2 = true) :
    (s.push c.1 c.2).Tallied ∧ Within limits (s.push c.1 c.2).result := by
  obtain ⟨hsize, hmem, hsteps⟩ := hword
  rw [load_append, load_cons] at hsize hmem hsteps
  dsimp only at hsize hmem hsteps
  have hpush : load (s.push c.1 c.2).result = ⟨(load s.result).size + c.2.sizeBytes,
      (load s.result).exMem + redeemerMem c.2.tx,
      (load s.result).exSteps + redeemerSteps c.2.tx⟩ := by
    rw [Selection.push, load_append, load_cons]
    rfl
  have hwrap : wrapAdd s.totalSize c.2.sizeBytes = (load s.result).size + c.2.sizeBytes := by
    rw [wrapAdd, hs.size, Nat.mod_eq_of_lt]
    rw [u64Max] at hsize
    omega
  have hsatmem : satAdd s.totalExMem (txExUnits c.2.tx).mem =
      (load s.result).exMem + redeemerMem c.2.tx := by
    rw [txExUnits_eq, satAdd, hs.exMem]
    dsimp only
    omega
  have hsatsteps : satAdd s.totalExSteps (txExUnits c.2.tx).steps =
      (load s.result).exSteps + redeemerSteps c.2.tx := by
    rw [txExUnits_eq, satAdd, hs.exSteps]
    dsimp only
    omega
  rw [Selection.fits, hwrap, hsatmem, hsatsteps] at hfits
  simp only [Bool.and_eq_true, decide_eq_true_eq] at hfits
  have hlength : (s.push c.1 c.2).result.length ≤ limits.maxCount := by
    rw [Selection.push, length_append, length_singleton]
    omega
  refine ⟨⟨?_, ?_, ?_⟩, ⟨hlength, ?_, ?_, ?_⟩⟩ <;> rw [hpush]
  exacts [hwrap, hsatmem, hsatsteps, hfits.1.1, hfits.1.2, hfits.2]

/-- What is chosen is a prefix of the candidates within the limits. -/
theorem fill_spec
    (hs : s.Tallied) (hwithin : Within limits s.result) (hword : (load (s.result ++ cs)).Word) :
    (∃ n, (fill limits cs s).result = s.result ++ cs.take n) ∧
      Within limits (fill limits cs s).result := by
  induction cs generalizing s with
  | nil => exact ⟨⟨0, (append_nil _).symm⟩, hwithin⟩
  | cons c cs ih =>
    rw [fill]
    split
    · exact ⟨⟨0, (append_nil _).symm⟩, hwithin⟩
    next hcount =>
    split
    · next hfits =>
      obtain ⟨hs', hwithin'⟩ := hs.push hword hcount hfits
      have happend := append_assoc s.result [c] cs
      obtain ⟨⟨n, heq⟩, hdone⟩ := ih hs' hwithin' (happend ▸ hword)
      refine ⟨⟨n + 1, ?_⟩, hdone⟩
      rw [heq, take_succ_cons]
      exact append_assoc s.result [c] (cs.take n)
    · exact ⟨⟨0, (append_nil _).symm⟩, hwithin⟩

/-! ## The body of a block -/

/-- `e` spends an output of the pending transaction `h`. -/
def SpendsPending (m : Mempool) (e : MempoolEntry) (h : Hash32) : Prop :=
  ∃ i ∈ e.tx.body.inputs, i.transactionId = h ∧
    ∃ p, m.txs.lookup h = some p ∧ i.index.toNat < p.tx.body.outputs.length

/-- A slot is inside the validity interval of a transaction. -/
def InInterval (slot : Nat) (tx : Transaction) : Prop :=
  (∀ start, tx.body.validityIntervalStart = some start → start ≤ slot) ∧
    ∀ ttl, tx.body.ttl = some ttl → slot < ttl

/-- What a list of transactions for a block has to be: pending transactions, none twice, within the
limits and valid at the forge slot, each after those whose outputs it spends. -/
structure BlockBody (m : Mempool) (limits : BlockLimits) (forgeSlot : Option Nat)
    (body : List (Hash32 × MempoolEntry)) : Prop where
  pending : ∀ c ∈ body, m.txs.lookup c.1 = some c.2
  nodup : (body.map (·.1)).Nodup
  within : Within limits body
  valid : ∀ slot, forgeSlot = some slot → ∀ c ∈ body, InInterval slot c.2.tx
  ordered : ∀ before c after, body = before ++ c :: after →
    ∀ h, SpendsPending m c.2 h → h ∈ before.map (·.1)

/-! ## The queue is in the order of the dependencies -/

/-- `e` spends an output that is said to be of the transaction `h`. -/
def Names (e : MempoolEntry) (h : Hash32) : Prop := ∃ i ∈ e.tx.body.inputs, i.transactionId = h

instance (e : MempoolEntry) (h : Hash32) : Decidable (Names e h) := decidableBEx _ _

/-- The calls that keep the queue in the order of the dependencies. A newcomer is not in the queue
any more, which has a place for it, and neither it nor a pending transaction spends an output of
it. -/
def InOrder (m : Mempool) : Call → Prop
  | .addTxFull _ e => m.txs.lookup e.txHash = none →
      (e.txHash ∉ m.order ∧ m.order.length < orderDequeMax) ∧ ¬Names e e.txHash ∧
        ∀ h e', m.txs.lookup h = some e' → ¬Names e' e.txHash
  | _ => True

/-- What is pending is in the queue once, after all that it spends. -/
structure Sorted (m : Mempool) : Prop where
  queued : ∀ h e, m.txs.lookup h = some e → h ∈ m.order ∧ h ∉ m.orderTombstones
  nodup : m.order.Nodup
  later : m.order.Pairwise fun a b => ∀ e, m.txs.lookup a = some e → ¬Names e b
  other : ∀ h e, m.txs.lookup h = some e → ¬Names e h

section
variable {m : Mempool} {e : MempoolEntry}

/-- Leaving out part of the queue and of what is pending keeps the order, as long as what is still
pending is still in the queue. -/
theorem Sorted.of_sublist {m' : Mempool} (hm : Sorted m) (horder : m'.order.Sublist m.order)
    (htxs : ∀ h e, m'.txs.lookup h = some e → m.txs.lookup h = some e)
    (hqueued : ∀ h e, m'.txs.lookup h = some e → h ∈ m'.order ∧ h ∉ m'.orderTombstones) :
    Sorted m' where
  queued := hqueued
  nodup := hm.nodup.sublist horder
  later := (hm.later.sublist horder).imp fun hab e he => hab e (htxs _ e he)
  other h e he := hm.other h e (htxs h e he)

/-- Compaction takes nothing out of the queue but tombstoned hashes. -/
theorem maybeCompactOrder_order (m : Mempool) :
    m.maybeCompactOrder.order.Sublist m.order ∧
      (∀ h ∈ m.order, h ∉ m.orderTombstones → h ∈ m.maybeCompactOrder.order) ∧
      m.maybeCompactOrder.orderTombstones ⊆ m.orderTombstones := by
  rw [maybeCompactOrder]
  split
  · refine ⟨filter_sublist, fun h hqueued hlive => ?_, Finset.empty_subset _⟩
    exact mem_filter.2 ⟨hqueued, decide_eq_true hlive⟩
  · exact ⟨Sublist.refl _, fun h hqueued _ => hqueued, Finset.Subset.refl _⟩

/-- A removal leaves the queue as it is and tombstones one hash. -/
theorem drop_order (m : Mempool) (h : Hash32) :
    (m.drop h).order = m.order ∧ (m.drop h).orderTombstones ⊆ insert h m.orderTombstones := by
  cases hlookup : m.txs.lookup h with
  | none =>
    rw [drop_of_none hlookup]
    exact ⟨rfl, Finset.subset_insert h _⟩
  | some e =>
    rw [drop_of_some hlookup]
    exact ⟨rfl, Finset.Subset.refl _⟩

theorem kept_sorted : Kept Sorted where
  drop m h hm := by
    obtain ⟨horder, htomb⟩ := drop_order m h
    refine hm.of_sublist (horder ▸ Sublist.refl _) (fun _ _ => pending_of_drop) fun x e he => ?_
    obtain ⟨hqueued, hlive⟩ := hm.queued x e (pending_of_drop he)
    refine ⟨horder ▸ hqueued, fun hx => ?_⟩
    rcases Finset.mem_insert.1 (htomb hx) with rfl | hx
    · rw [drop_txs, FinMap.lookup_erase_ite, if_pos rfl] at he
      cases he
    · exact hlive hx
  edges m edges hm := { hm with }
  compact m hm := by
    obtain ⟨hsub, hstays, htomb⟩ := maybeCompactOrder_order m
    have htxs := maybeCompactOrder_txs m
    refine hm.of_sublist hsub (fun x e he => htxs ▸ he) fun x e he => ?_
    obtain ⟨hqueued, hlive⟩ := hm.queued x e (htxs ▸ he)
    exact ⟨hstays x hqueued hlive, fun hx => hlive (htomb hx)⟩

/-- The queue only shrinks by removals. -/
theorem kept_order (m₀ : Mempool) : Kept fun m => m.order.Sublist m₀.order where
  drop m h hm := (drop_order m h).1 ▸ hm
  edges _ _ hm := hm
  compact m hm := (maybeCompactOrder_order m).1.trans hm

/-- A newcomer is put behind what is left of the queue. -/
theorem enter_order (e : MempoolEntry) (hroom : m.order.length < orderDequeMax) :
    ∃ queue : List Hash32, (m.enter e).order = queue ++ [e.txHash] ∧ queue.Sublist m.order ∧
      (∀ h ∈ m.order, h ∉ m.orderTombstones → h ∈ queue) ∧
      (m.enter e).orderTombstones ⊆ m.orderTombstones.erase e.txHash := by
  have hcompact := maybeCompactOrder_order { m with
    virtualUtxo := m.virtualUtxo.insertAll (virtualOutputs e.txHash e.tx)
    feeIndex := m.feeIndex.insert (e.feeKey e.txHash)
    txs := m.txs.insert e.txHash e
    orderTombstones := m.orderTombstones.erase e.txHash }
  obtain ⟨hsub, hstays, htomb⟩ := hcompact
  exact ⟨_, congrArg (· ++ [e.txHash]) (if_neg (Nat.not_le.2 (hsub.length_le.trans_lt hroom))),
    hsub, fun h hqueued hlive => hstays h hqueued fun hmem => hlive (Finset.mem_of_mem_erase hmem), htomb⟩

/-- A newcomer that nothing pending spends comes last. -/
theorem Sorted.enter (hm : Sorted m) (hroom : m.order.length < orderDequeMax)
    (hnew : e.txHash ∉ m.order) (hself : ¬Names e e.txHash)
    (hpending : ∀ h e', m.txs.lookup h = some e' → ¬Names e' e.txHash) : Sorted (m.enter e) := by
  obtain ⟨queue, horder, hsub, hstays, htomb⟩ := enter_order e hroom
  have hout : e.txHash ∉ queue := fun hmem => hnew (hsub.subset hmem)
  -- What is pending now is the newcomer, or was pending under another hash.
  have hcases : ∀ h e', (m.enter e).txs.lookup h = some e' →
      h = e.txHash ∧ e' = e ∨ m.txs.lookup h = some e' := by
    intro h e' he'
    rw [enter_txs, FinMap.lookup_insert_ite] at he'
    split at he'
    · next heq => exact .inl ⟨heq, (Option.some.inj he').symm⟩
    · exact .inr he'
  refine ⟨fun h e' he' => ?_, ?_, ?_, fun h e' he' => ?_⟩
  · rw [horder]
    rcases hcases h e' he' with ⟨rfl, rfl⟩ | he'
    · exact ⟨mem_append_right _ (mem_singleton_self _), fun h => Finset.notMem_erase _ _ (htomb h)⟩
    · obtain ⟨hqueued, hlive⟩ := hm.queued h e' he'
      exact ⟨mem_append_left _ (hstays h hqueued hlive),
        fun h => hlive (Finset.mem_of_mem_erase (htomb h))⟩
  · rw [horder, nodup_append_comm]
    exact nodup_cons.2 ⟨hout, hm.nodup.sublist hsub⟩
  · rw [horder, pairwise_append]
    refine ⟨(hm.later.sublist hsub).imp_of_mem fun {a b} ha _ hab e' he' => ?_,
      pairwise_singleton _ _, fun a ha b hb e' he' => ?_⟩
    · rcases hcases a e' he' with ⟨rfl, -⟩ | he'
      · exact absurd ha hout
      · exact hab e' he'
    · rw [mem_singleton.1 hb]
      rcases hcases a e' he' with ⟨rfl, -⟩ | he'
      · exact absurd ha hout
      · exact hpending a e' he'
  · rcases hcases h e' he' with ⟨rfl, rfl⟩ | he'
    · exact hself
    · exact hm.other h e' he'

theorem sorted_new (config : MempoolConfig) : Sorted (new config) :=
  ⟨fun _ _ h => (nomatch h), .nil, .nil, fun _ _ h => (nomatch h)⟩

/-- A call in order keeps the order. -/
theorem Sorted.call (hm : Sorted m) {c : Call} (hc : m.InOrder c) : Sorted (m.call c) := by
  cases c with
  | addTxFull table e =>
    have hm' := kept_sorted.byRemoval.ensureCapacity e hm
    have hshrunk := (kept_order m).byRemoval.ensureCapacity e (Sublist.refl _)
    have houtcome := submitted table m e
    rw [Mempool.call]
    generalize (m.addTxFull table e).2 = m' at houtcome
    cases houtcome with
    | unchanged => exact hm
    | refused => exact hm'
    | tooDeep => exact { hm' with }
    | added hadded =>
      obtain ⟨edges, -, rfl⟩ := hadded.linked
      obtain ⟨⟨hnew, hroom⟩, hself, hpending⟩ := hc hadded.new
      refine Sorted.enter { hm' with } (hshrunk.length_le.trans_lt hroom)
        (fun hmem => hnew (hshrunk.subset hmem)) hself fun h e' he' => ?_
      exact hpending h e' (pending_of_ensureCapacity he')
  | updateCapacityFromParams size mem steps => exact { hm with }
  | drainAll =>
    have hqueued : m.Queued := fun h hkey => by
      obtain ⟨e, he⟩ := mem_keys_iff.1 hkey
      exact (hm.queued h e he).1
    rw [Mempool.call, drainAll_of_queued hqueued]
    exact sorted_new m.config
  | clear => exact sorted_new m.config
  | _ => exact kept_sorted.call rfl hm

theorem Reached.sorted {config : MempoolConfig} (h : Reached config InOrder m) : Sorted m := by
  induction h with
  | new => exact sorted_new config
  | call _ hc ih => exact ih.call hc

/-! ## What is forged -/

/-- What forging at a slot asks of the pending transactions: their sums are machine words, and those
that have not expired have begun to be valid and spend none that has expired. -/
structure Ready (m : Mempool) (forgeSlot : Option Nat) : Prop where
  size : m.txs.total (·.sizeBytes) ≤ u64Max
  exMem : m.txs.total (redeemerMem ·.tx) ≤ u64Max
  exSteps : m.txs.total (redeemerSteps ·.tx) ≤ u64Max
  started : ∀ slot, forgeSlot = some slot → ∀ h e, m.txs.lookup h = some e →
    expiredAt forgeSlot e = false →
      ∀ start, e.tx.body.validityIntervalStart = some start → start ≤ slot
  parents : ∀ h e, m.txs.lookup h = some e → expiredAt forgeSlot e = false →
    ∀ p e', m.txs.lookup p = some e' → Names e p → expiredAt forgeSlot e' = false

variable {forgeSlot : Option Nat}

/-- A sum over the candidates is at most the sum over what is pending. -/
theorem sum_candidates_le (hm : Sorted m) (f : MempoolEntry → Nat) :
    ((m.candidates forgeSlot m.order ∅).map fun c => f c.2).sum ≤ m.txs.total f := by
  have hnodup := hm.nodup.sublist (candidates_sublist m forgeSlot m.order ∅)
  refine le_trans (le_of_eq ?_)
    (FinMap.sum_weightAt_le m.txs ((m.candidates forgeSlot m.order ∅).map (·.1)).toFinset)
  rw [sum_toFinset _ hnodup, map_map]
  refine congrArg List.sum (map_congr_left fun c hc => ?_)
  have hpending := (mem_candidates.1 hc : Candidate m forgeSlot m.order ∅ c.1 c.2).pending
  rw [Function.comp_apply, FinMap.weightAt, hpending]
  rfl

/-- In a sorted mempool every prefix of the candidates that is within the limits is a block body. -/
theorem Sorted.blockBody_take (hm : Sorted m) (hready : Ready m forgeSlot) {n : Nat}
    (hwithin : Within limits ((m.candidates forgeSlot m.order ∅).take n)) :
    BlockBody m limits forgeSlot ((m.candidates forgeSlot m.order ∅).take n) := by
  have hcandidate : ∀ c ∈ (m.candidates forgeSlot m.order ∅).take n,
      Candidate m forgeSlot m.order ∅ c.1 c.2 := fun c hc =>
    mem_candidates.1 (mem_of_mem_take hc)
  have hsub := candidates_sublist m forgeSlot m.order ∅
  refine ⟨fun c hc => (hcandidate c hc).pending, ?_, hwithin, fun slot hslot c hc => ?_,
    fun before c after hsplit h hspends => ?_⟩
  · rw [map_take]
    exact (hm.nodup.sublist hsub).sublist (take_sublist _ _)
  · have hc := hcandidate c hc
    refine ⟨hready.started slot hslot c.1 c.2 hc.pending hc.unexpired, fun ttl httl => ?_⟩
    have hunexpired := hc.unexpired
    simp only [hslot, expiredAt, httl, decide_eq_false_iff_not] at hunexpired
    omega
  · have hc := hcandidate c (hsplit ▸ mem_append_right before mem_cons_self)
    obtain ⟨i, hi, hih, p, hp, -⟩ := hspends
    have hnames : Names c.2 h := ⟨i, hi, hih⟩
    -- The parent is a candidate too. It is not the child, and not behind it.
    obtain ⟨hqueued, hlive⟩ := hm.queued h p hp
    have hparent := mem_map_of_mem (f := (·.1)) (mem_candidates.2 (⟨hqueued, Finset.notMem_empty h,
      hlive, hp, hready.parents c.1 c.2 hc.pending hc.unexpired h p hp hnames⟩ :
        Candidate m forgeSlot m.order ∅ h p))
    have hlater := hm.later.sublist hsub
    rw [← take_append_drop n (m.candidates forgeSlot m.order ∅), hsplit, append_assoc, map_append,
      cons_append, map_cons] at hparent hlater
    rcases mem_append.1 hparent with hbefore | hparent
    · exact hbefore
    rcases mem_cons.1 hparent with rfl | hafter
    · exact absurd hnames (hm.other c.1 c.2 hc.pending)
    · have hpair := pairwise_cons.1 (pairwise_append.1 hlater).2.1
      exact absurd hnames (hpair.1 h hafter c.2 hc.pending)

theorem Sorted.blockBody (hm : Sorted m) (hready : Ready m forgeSlot) (limits : BlockLimits) :
    BlockBody m limits forgeSlot (m.select limits forgeSlot) := by
  have hword : (load (m.candidates forgeSlot m.order ∅)).Word :=
    ⟨(sum_candidates_le hm _).trans hready.size, (sum_candidates_le hm _).trans hready.exMem,
      (sum_candidates_le hm _).trans hready.exSteps⟩
  have hempty : Within limits [] := ⟨Nat.zero_le _, Nat.zero_le _, Nat.zero_le _, Nat.zero_le _⟩
  obtain ⟨⟨n, heq⟩, hwithin⟩ := fill_spec (s := {}) ⟨rfl, rfl, rfl⟩ hempty hword
  rw [heq] at hwithin
  rw [select_eq_fill, heq]
  exact hm.blockBody_take hready hwithin

end

/-- After any run of calls in order, what is taken for a block at a slot that the pending
transactions are ready for is a block body, under every limit. -/
theorem blockBody_of_inOrder {config : MempoolConfig} {m : Mempool}
    (h : Reached config InOrder m) {forgeSlot : Option Nat} (hready : Ready m forgeSlot)
    (limits : BlockLimits) : ∃ body, m.getTxsForBlockWithExUnitsAt limits forgeSlot =
      body.map (·.2.tx) ∧ BlockBody m limits forgeSlot body :=
  ⟨m.select limits forgeSlot, rfl, h.sorted.blockBody hready limits⟩

/-! ### A child without its parent, and before it -/

/-- A parent that expires at slot 10. -/
def shortLived : MempoolEntry where
  tx := { hash := 1, body := {
    inputs := [⟨9, 0⟩]
    outputs := [{ address := .byron ⟨[]⟩, value := .lovelace 1 }]
    ttl := some 10 } }
  txHash := 1
  sizeBytes := 300

/-- A child of `shortLived`, with a script to run. -/
def spender : MempoolEntry where
  tx := { hash := 2, body := { inputs := [⟨1, 0⟩], ttl := some 20 }, witnessSet := {
    redeemers := [{ tag := .spend, index := 0, data := .list [], exUnits := ⟨50, 700⟩ }] } }
  txHash := 2
  sizeBytes := 200

theorem spendsPending_spender {m : Mempool} (h : m.txs.lookup 1 = some shortLived) :
    SpendsPending m spender 1 :=
  ⟨⟨1, 0⟩, mem_singleton_self _, rfl, shortLived, h, by decide⟩

def wide : BlockLimits := ⟨10, 1000, 1000, 1000⟩

/-- `shortLived` and then `spender` are submitted. -/
def inTurn (config : MempoolConfig) : Mempool :=
  ((new config).call (.addTxFull byHash shortLived)).call (.addTxFull byHash spender)

theorem lookup_inTurn {config : MempoolConfig} {h : Hash32} {e : MempoolEntry}
    (he : (inTurn config).txs.lookup h = some e) :
    h = 2 ∧ e = spender ∨ h = 1 ∧ e = shortLived := by
  rcases lookup_addTxFull he with he | ⟨-, hspender⟩
  · rcases lookup_addTxFull he with he | ⟨-, hshortLived⟩
    · cases he
    · exact .inr hshortLived
  · exact .inl hspender

theorem ready_inTurn : Ready (inTurn {}) (some 9) where
  size := by decide +kernel
  exMem := by decide +kernel
  exSteps := by decide +kernel
  started slot _ h e he _ start hstart := by
    rcases lookup_inTurn he with ⟨-, rfl⟩ | ⟨-, rfl⟩ <;> cases hstart
  parents h e _ _ p e' he' _ := by
    rcases lookup_inTurn he' with ⟨-, rfl⟩ | ⟨-, rfl⟩ <;> rfl

/-- Before the parent expires both are taken, the parent first. -/
theorem parent_forged_first :
    (∃ body, (inTurn {}).getTxsForBlockWithExUnitsAt wide (some 9) = body.map (·.2.tx) ∧
      BlockBody (inTurn {}) wide (some 9) body) ∧
    (inTurn {}).getTxsForBlockWithExUnitsAt wide (some 9) = [shortLived.tx, spender.tx] := by
  have hparent : (new {}).InOrder (.addTxFull byHash shortLived) := fun _ =>
    ⟨⟨List.not_mem_nil, by decide⟩, by decide +kernel, fun _ _ h => (nomatch h)⟩
  have hchild : ((new {}).call (.addTxFull byHash shortLived)).InOrder
      (.addTxFull byHash spender) := by
    refine fun _ => ⟨⟨by decide +kernel, by decide +kernel⟩, by decide +kernel, fun h e' he' => ?_⟩
    rcases lookup_addTxFull he' with he' | ⟨-, -, rfl⟩
    · cases he'
    · decide +kernel
  exact ⟨blockBody_of_inOrder (.call (.call .new hparent) hchild) ready_inTurn wide, rfl⟩

/-- An expired parent is passed over and its child is taken. And a child that was pending before its
parent, and is submitted again after it, is back at its old place in the queue. -/
theorem child_before_parent :
    (∃ m, Reached {} (fun _ _ => True) m ∧ (m.select wide (some 10)).map (·.1) = [2] ∧
      ¬BlockBody m wide (some 10) (m.select wide (some 10))) ∧
    ∃ m, Reached {} (fun _ _ => True) m ∧ (m.select wide none).map (·.1) = [2, 1] ∧
      ¬BlockBody m wide none (m.select wide none) := by
  constructor
  · refine ⟨_, (Reached.new.call (c := .addTxFull byHash shortLived) trivial).call
      (c := .addTxFull byHash spender) trivial, by decide +kernel, fun hbody => ?_⟩
    exact nomatch hbody.ordered [] (2, spender) [] rfl 1 (spendsPending_spender rfl)
  · refine ⟨_, (((Reached.new.call (c := .addTxFull byHash spender) trivial).call
      (c := .removeTx 2 .manual) trivial).call (c := .addTxFull byHash shortLived) trivial).call
      (c := .addTxFull byHash spender) trivial, by decide +kernel, fun hbody => ?_⟩
    exact nomatch hbody.ordered [] (2, spender) [(1, shortLived)] rfl 1 (spendsPending_spender rfl)

end Mempool

end Dugite
