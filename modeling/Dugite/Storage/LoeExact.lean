import Dugite.Storage.Ancestry

/-!
# The Limit on Eagerness is enforced as defined

`Past db tip candidate path`: the candidate descends from the tip of the fragment, and `path` are
its blocks beyond the tip, oldest first. `Leads` says the same block by block. The walk back from a
candidate finds this path or defers the candidate (`loeWalk_of_leads`, `leads_of_loeWalk`); the last
`k` blocks it has passed are the first `k` of the path, so that what it trims to is the block `k`
past the tip (`outcome`).

The fragment need not be stored. `ParentMap` is what the stored blocks and the fragment say together
about parents: a block of the fragment has the one before it as its parent, and no block is its own
ancestor.
-/

namespace Dugite

open List LoeView VolatileDB Option

/-! ## Parents -/

/-- The parents of blocks; no block is its own ancestor. -/
structure ParentMap where
  parent : Hash32 → Option Hash32
  acyclic : ∀ h, ¬Relation.TransGen (fun p h => parent h = some p) h h

namespace ParentMap

variable (P : ParentMap)

/-- The stored blocks have these parents. -/
def Holds (blocks : FinMap Hash32 VolatileBlock) : Prop :=
  ∀ h b, blocks.lookup h = some b → P.parent h = some b.prevHash

/-- Each point has the one before it as its parent. -/
def Chain (points : List Hash32) : Prop := points.IsChain fun p h => P.parent h = some p

abbrev Below : Hash32 → Hash32 → Prop := Relation.TransGen fun p h => P.parent h = some p

variable {P} {blocks : FinMap Hash32 VolatileBlock}

theorem Holds.below (hdb : P.Holds blocks) {a h : Hash32} (hanc : IsAncestor blocks a h) :
    P.Below a h := by
  have hparent : ∀ p x, IsParent blocks p x → P.parent x = some p := by
    rintro p x ⟨b, hb, rfl⟩
    exact hdb x b hb
  exact Relation.TransGen.mono hparent a h hanc

theorem Holds.acyclic (hdb : P.Holds blocks) : Acyclic blocks :=
  fun h hanc => P.acyclic h (hdb.below hanc)

/-- The last point of a chain lies above all others. -/
theorem Chain.below_last {points : List Hash32} (h : P.Chain points) {x tip : Hash32}
    (hx : x ∈ points) (htip : points.getLast? = some tip) : x = tip ∨ P.Below x tip := by
  have hpairwise :=
    isChain_iff_pairwise.1 (h.imp fun _ _ hparent => Relation.TransGen.single hparent)
  obtain ⟨init, rfl⟩ := getLast?_eq_some_iff.1 htip
  rw [mem_append, mem_singleton] at hx
  rcases hx with hx | rfl
  · exact .inr ((pairwise_append.1 hpairwise).2.2 x hx tip (mem_singleton.2 rfl))
  · exact .inl rfl

end ParentMap

/-! ## Beyond the tip -/

/-- The candidate descends from the tip; `path` are its blocks beyond the tip, oldest first. A tip
at Origin is below every block, and the path starts where the volatile database does. -/
structure Past (db : VolatileDB) (tip : Option Hash32) (candidate : Hash32) (path : List Hash32) :
    Prop where
  linked : ∃ start, LinkedFrom db.blocks start path ∧
    (tip = some start ∨ tip = none ∧ db.blocks.lookup start = none)
  ends : path.getLast? = some candidate

/-- The verdict on a candidate with these blocks beyond the tip. -/
def outcome (k : Nat) (path : List Hash32) : LoeVerdict :=
  if path.length ≤ k then .allowed
  else if 0 < k then path[k - 1]?.elim .deferred .trimmedTo
  else .deferred

/-- The points of a fragment, its anchor first. -/
abbrev fragmentPoints (anchor : Option Hash32) (entries : List Hash32) : List Hash32 :=
  anchor.toList ++ entries

/-- The tip of a fragment: its last entry, else its anchor. -/
abbrev fragmentTip (anchor : Option Hash32) (entries : List Hash32) : Option Hash32 :=
  entries.getLast?.or anchor

/-! ## The walks -/

section
variable {volatile : VolatileDB} {view : LoeView} {cur : Hash32} {path passed : List Hash32}

theorem tipHit_iff {parent : Hash32} : view.tipHit volatile parent = true ↔
    view.tipHash = some parent ∨ view.tipHash = none ∧ volatile.blocks.lookup parent = none := by
  simp [tipHit, isTip, hasBlock]

/-- The blocks of a path are neither on the fragment nor its tip, so a walk passes them. -/
structure Clean (volatile : VolatileDB) (view : LoeView) (path : List Hash32) : Prop where
  notMember : ∀ x ∈ path, view.isMember x = false
  notTip : ∀ x ∈ path, view.tipHit volatile x = false

theorem Clean.of_append {rest : List Hash32} (h : Clean volatile view (path ++ rest)) :
    Clean volatile view path :=
  ⟨fun x hx => h.notMember x (mem_append_left _ hx), fun x hx => h.notTip x (mem_append_left _ hx)⟩

/-- How a walk back from a block meets the tip, with the blocks it passes, oldest first. -/
inductive Leads (volatile : VolatileDB) (view : LoeView) : Hash32 → List Hash32 → Prop
  | tip {cur : Hash32} {b : VolatileBlock} (hb : volatile.blocks.lookup cur = some b)
      (hhit : view.tipHit volatile b.prevHash = true) : Leads volatile view cur [cur]
  | step {cur : Hash32} {b : VolatileBlock} {path : List Hash32}
      (hb : volatile.blocks.lookup cur = some b) (hpath : Leads volatile view b.prevHash path) :
      Leads volatile view cur (path ++ [cur])

theorem Leads.mem (h : Leads volatile view cur path) : cur ∈ path := by
  cases h <;> simp

theorem Leads.stored (h : Leads volatile view cur path) : volatile.hasBlock cur = true := by
  cases h with
  | tip hb _ | step hb _ => rw [hasBlock, hb, isSome_some]

theorem past_iff_leads : Past volatile view.tipHash cur path ↔ Leads volatile view cur path := by
  constructor
  · rintro ⟨⟨start, hlinked, hstart⟩, hends⟩
    induction path using List.reverseRecOn generalizing cur with
    | nil => cases hends
    | append_singleton path x ih =>
      obtain rfl : x = cur := by simpa using hends
      obtain ⟨hrest, b, hb, hprev⟩ := LinkedFrom.concat_iff.1 hlinked
      cases hy : path.getLast? with
      | none =>
        obtain rfl := getLast?_eq_none_iff.1 hy
        exact .tip hb (hprev ▸ tipHit_iff.2 hstart)
      | some y =>
        rw [hy, getD_some] at hprev
        exact .step hb (hprev ▸ ih hy hrest)
  · intro h
    induction h with
    | tip hb hhit => exact ⟨⟨_, ⟨_, hb, rfl, trivial⟩, tipHit_iff.1 hhit⟩, rfl⟩
    | step hb _ ih =>
      obtain ⟨⟨start, hlinked, hstart⟩, hends⟩ := ih
      refine ⟨⟨start, LinkedFrom.concat_iff.2 ⟨hlinked, _, hb, ?_⟩, hstart⟩, getLast?_concat⟩
      rw [hends, getD_some]

/-- A path does not depend on blocks outside a set that holds the parents of its blocks. -/
theorem Leads.mono {db : VolatileDB} {S : Hash32 → Prop}
    (hsame : ∀ x, S x → db.blocks.lookup x = volatile.blocks.lookup x)
    (hclosed : ∀ x b, S x → volatile.blocks.lookup x = some b → S b.prevHash)
    (h : Leads volatile view cur path) (hcur : S cur) : Leads db view cur path := by
  induction h with
  | @tip cur b hb hhit =>
    refine .tip ((hsame cur hcur).trans hb) ?_
    rw [tipHit_iff, hsame _ (hclosed cur b hcur hb)]
    exact tipHit_iff.1 hhit
  | @step cur b path hb _ ih =>
    exact .step ((hsame cur hcur).trans hb) (ih (hclosed cur b hcur hb))

/-- The window holds the first blocks of what the walk has passed. -/
theorem pushWindow_take {k : Nat} {window : List Hash32}
    (hwindow : 0 < k → window = (passed.take k).reverse) (cur : Hash32) (hk : 0 < k) :
    pushWindow k window cur = ((cur :: passed).take k).reverse := by
  rw [hwindow hk]
  obtain ⟨k, rfl⟩ := Nat.exists_eq_succ_of_ne_zero (Nat.pos_iff_ne_zero.1 hk)
  rw [pushWindow, take_succ_cons, reverse_cons, length_reverse, length_take]
  by_cases hlen : k + 1 ≤ passed.length
  · rw [if_pos ⟨hk, by omega⟩]
    have hlt := hlen
    rw [take_succ_eq_append_getElem hlt, reverse_append]
    rfl
  · rw [if_neg (by omega), take_of_length_le (by omega), take_of_length_le (by omega)]

theorem loeWalk_of_leads (h : Leads volatile view cur path) (hclean : Clean volatile view path)
    (fuel : Nat) (window : List Hash32) (hfuel : path.length ≤ fuel)
    (hwindow : 0 < view.k → window = (passed.take view.k).reverse) :
    loeWalk volatile view fuel window passed.length cur = outcome view.k (path ++ passed) := by
  induction h generalizing fuel window passed with
  | @tip cur b hb hhit =>
    rw [length_singleton] at hfuel
    obtain ⟨fuel, rfl⟩ : ∃ f, fuel = f + 1 := ⟨fuel - 1, by omega⟩
    rw [loeWalk, hb]
    dsimp only
    rw [hhit, Bool.true_or, if_pos rfl, outcome, singleton_append, length_cons]
    by_cases hle : passed.length + 1 ≤ view.k
    · rw [if_pos hle, if_pos hle]
    rw [if_neg hle, if_neg hle]
    by_cases hk : 0 < view.k
    · have hhead : (pushWindow view.k window cur).head? = (cur :: passed)[view.k - 1]? := by
        rw [pushWindow_take hwindow cur hk, head?_reverse, getLast?_take, if_neg (by omega)]
        rw [getElem?_eq_getElem (by simp; omega)]
        rfl
      rw [hhead, if_pos hk]
      cases (cur :: passed)[view.k - 1]? with
      | none => rfl
      | some t => exact if_pos hk
    · rw [if_neg hk]
      cases (pushWindow view.k window cur).head? with
      | none => rfl
      | some t => exact if_neg hk
  | @step cur b path hb hpath ih =>
    rw [length_append, length_singleton] at hfuel
    obtain ⟨fuel, rfl⟩ : ∃ f, fuel = f + 1 := ⟨fuel - 1, by omega⟩
    have hmem : b.prevHash ∈ path ++ [cur] := mem_append_left _ hpath.mem
    rw [loeWalk, hb]
    dsimp only
    rw [hclean.notTip _ hmem, hclean.notMember _ hmem, hpath.stored]
    simp only [Bool.not_false, Bool.not_true, Bool.and_false, Bool.or_false, Bool.false_eq_true,
      if_false]
    rw [append_assoc, singleton_append]
    exact ih hclean.of_append fuel _ (by omega) (pushWindow_take hwindow cur)

/-- A walk that does not defer the candidate has met the tip. -/
theorem leads_of_loeWalk (hview : view.members = ∅ → view.tipHash = none) (fuel : Nat) :
    ∀ (window : List Hash32) (depth : Nat) (cur : Hash32),
      loeWalk volatile view fuel window depth cur ≠ .deferred →
      ∃ path, Leads volatile view cur path := by
  induction fuel with
  | zero => exact fun _ _ _ h => absurd rfl h
  | succ fuel ih =>
    intro window depth cur h
    rw [loeWalk] at h
    cases hb : volatile.blocks.lookup cur with
    | none =>
      rw [hb] at h
      exact absurd rfl h
    | some b =>
    rw [hb] at h
    dsimp only at h
    cases hhit : view.tipHit volatile b.prevHash with
    | true => exact ⟨_, .tip hb hhit⟩
    | false =>
    have hstays : view.members = ∅ → volatile.hasBlock b.prevHash = true := by
      intro hempty
      rw [tipHit, hview hempty, Bool.or_eq_false_iff] at hhit
      simpa using hhit.2
    rw [hhit] at h
    split at h
    · next hcond =>
      rw [Bool.false_or, Bool.not_false, Bool.true_and, Bool.and_eq_true, Bool.and_eq_true]
        at hcond
      rw [hstays (of_decide_eq_true hcond.1.1)] at hcond
      cases hcond.2
    split at h
    · exact absurd rfl h
    split at h
    · exact absurd rfl h
    obtain ⟨path, hpath⟩ := ih _ _ _ h
    exact ⟨_, .step hb hpath⟩

theorem depthWalk_of_leads (h : Leads volatile view cur path) (hclean : Clean volatile view path)
    (fuel depth : Nat) : depthWalk volatile view fuel (depth + 1) cur =
      if path.length ≤ fuel then some (depth + path.length) else none := by
  induction h generalizing fuel depth with
  | tip hb hhit =>
    cases fuel with
    | zero => rfl
    | succ fuel =>
    rw [depthWalk, hb]
    dsimp only
    rw [if_pos hhit, if_pos (by simp)]
    rfl
  | @step cur b path hb hpath ih =>
    have hmem : b.prevHash ∈ path ++ [cur] := mem_append_left _ hpath.mem
    rw [length_append, length_singleton]
    cases fuel with
    | zero => rw [depthWalk, if_neg (by omega)]
    | succ fuel =>
    rw [depthWalk, hb]
    dsimp only
    rw [hclean.notTip _ hmem, hclean.notMember _ hmem, hpath.stored]
    simp only [Bool.not_true, Bool.false_eq_true, if_false]
    rw [ih hclean.of_append fuel (depth + 1)]
    refine if_congr (by omega) (congrArg some (by omega)) rfl

theorem leads_of_depthWalk (hview : view.members = ∅ → view.tipHash = none) (fuel : Nat) :
    ∀ (depth : Nat) (cur : Hash32), depthWalk volatile view fuel depth cur ≠ none →
      ∃ path, Leads volatile view cur path := by
  induction fuel with
  | zero => exact fun _ _ h => absurd rfl h
  | succ fuel ih =>
    intro depth cur h
    rw [depthWalk] at h
    cases hb : volatile.blocks.lookup cur with
    | none =>
      rw [hb] at h
      exact absurd rfl h
    | some b =>
    rw [hb] at h
    dsimp only at h
    split at h
    · next hhit => exact ⟨_, .tip hb hhit⟩
    next hhit =>
    split at h
    · exact absurd rfl h
    split at h
    · next hout =>
      split at h
      · next hempty =>
        refine absurd ?_ hhit
        rw [tipHit, hview hempty, hout]
        simp
      · exact absurd rfl h
    · obtain ⟨path, hpath⟩ := ih _ _ h
      exact ⟨_, .step hb hpath⟩

end

/-! ## Verdicts -/

variable {P : ParentMap} {db : VolatileDB} {anchor : Option Hash32} {entries : List Hash32}
  {k : Nat} {candidate : Hash32} {path : List Hash32}

theorem isMember_build {h : Hash32} : (build (.fragment anchor entries k)).isMember h = true ↔
      h ∈ fragmentPoints anchor entries := by
  simp [build, isMember, or_comm]

theorem isMember_build_of_notMem {h : Hash32} (hout : h ∉ fragmentPoints anchor entries) :
    (build (.fragment anchor entries k)).isMember h = false := by
  rwa [← Bool.not_eq_true, isMember_build]

theorem getLast_fragmentPoints (anchor : Option Hash32) (entries : List Hash32) :
    (fragmentPoints anchor entries).getLast? = fragmentTip anchor entries := by
  rw [getLast?_append]
  cases anchor <;> rfl

theorem members_build_eq_empty : (build (.fragment anchor entries k)).members = ∅ →
      (build (.fragment anchor entries k)).tipHash = none := by
  intro hempty
  have hnil : fragmentPoints anchor entries = [] := by
    refine eq_nil_iff_forall_not_mem.2 fun x hx => ?_
    have hmem := isMember_build (k := k).2 hx
    rw [isMember, hempty] at hmem
    simp at hmem
  change fragmentTip anchor entries = none
  rw [← getLast_fragmentPoints, hnil]
  rfl

section
variable (hdb : P.Holds db.blocks) (hfragment : P.Chain (fragmentPoints anchor entries))
  (h : Past db (fragmentTip anchor entries) candidate path)
include hdb hfragment h

/-- What lies beyond the tip is not on the fragment. -/
theorem Past.clean : Clean db (build (.fragment anchor entries k)) path ∧
      ∀ x ∈ path, x ∉ fragmentPoints anchor entries := by
  obtain ⟨start, hlinked, hstart⟩ := h.linked
  have hout : ∀ x ∈ path, x ∉ fragmentPoints anchor entries := by
    intro x hx hmem
    rcases hstart with htip | ⟨hnone, -⟩
    · have hup := hdb.below (hlinked.isAncestor x hx)
      rcases hfragment.below_last hmem ((getLast_fragmentPoints _ _).trans htip) with rfl | hdown
      · exact P.acyclic _ hup
      · exact P.acyclic _ (hup.trans hdown)
    · rw [← getLast_fragmentPoints, getLast?_eq_none_iff] at hnone
      rw [hnone] at hmem
      cases hmem
  refine ⟨⟨fun x hx => ?_, fun x hx => ?_⟩, hout⟩
  · exact isMember_build_of_notMem (hout x hx)
  · rw [← Bool.not_eq_true, tipHit_iff]
    rintro (htip | ⟨-, hnone⟩)
    · exact hout x hx (mem_of_getLast? ((getLast_fragmentPoints _ _).trans htip))
    · obtain ⟨b, hb⟩ := hlinked.stored x hx
      rw [hb] at hnone
      cases hnone

theorem Past.candidate_notMem : candidate ∉ fragmentPoints anchor entries :=
  (h.clean (k := 0) hdb hfragment).2 candidate (mem_of_getLast? h.ends)

end

theorem verdict_of_mem (hmem : candidate ∈ fragmentPoints anchor entries) :
    loeVerdictForCandidate db candidate (build (.fragment anchor entries k)) = .allowed := by
  rw [loeVerdictForCandidate, isMember_build.2 hmem]
  rfl

/-- The verdict on a candidate that descends from the tip. -/
theorem verdict_of_past (hdb : P.Holds db.blocks)
    (hfragment : P.Chain (fragmentPoints anchor entries))
    (h : Past db (fragmentTip anchor entries) candidate path) :
    loeVerdictForCandidate db candidate (build (.fragment anchor entries k)) = outcome k path := by
  obtain ⟨start, hlinked, -⟩ := h.linked
  have hlen : path.length ≤ db.blocks.size := by
    rw [← toFinset_card_of_nodup (hlinked.nodup_of_acyclic hdb.acyclic), FinMap.size]
    refine Finset.card_le_card fun x hx => ?_
    obtain ⟨b, hb⟩ := hlinked.stored x (mem_toFinset.1 hx)
    exact Finmap.mem_keys.2 (Finmap.mem_of_lookup_eq_some hb)
  have hwalk : loeWalk db (build (.fragment anchor entries k)) (db.blocks.size + 1) []
      ([] : List Hash32).length candidate = outcome k (path ++ []) :=
    loeWalk_of_leads (past_iff_leads.1 h) (h.clean hdb hfragment).1 _ _ (by omega) fun _ => by simp
  rw [append_nil] at hwalk
  rw [loeVerdictForCandidate, isMember_build_of_notMem (h.candidate_notMem hdb hfragment)]
  exact hwalk

/-- A candidate that neither is on the fragment nor descends from its tip is deferred. -/
theorem verdict_of_not (hmem : candidate ∉ fragmentPoints anchor entries)
    (hpast : ¬∃ path, Past db (fragmentTip anchor entries) candidate path) :
    loeVerdictForCandidate db candidate (build (.fragment anchor entries k)) = .deferred := by
  rw [loeVerdictForCandidate, isMember_build_of_notMem hmem]
  by_contra hne
  obtain ⟨path, hpath⟩ := leads_of_loeWalk members_build_eq_empty _ _ _ _ hne
  exact hpast ⟨path, past_iff_leads.2 hpath⟩

theorem outcome_eq_allowed_iff : outcome k path = .allowed ↔ path.length ≤ k := by
  rw [outcome]
  split
  · next hle => exact iff_of_true rfl hle
  next hle =>
  refine iff_of_false (fun h => ?_) hle
  split at h
  · cases hget : path[k - 1]? <;> rw [hget] at h <;> cases h
  · cases h

theorem outcome_eq_trimmedTo_iff {t : Hash32} :
    outcome k path = .trimmedTo t ↔ 0 < k ∧ k < path.length ∧ path[k - 1]? = some t := by
  rw [outcome]
  split
  · next hle => exact iff_of_false (fun h => LoeVerdict.noConfusion h) fun h => by omega
  next hle =>
  split
  · next hk =>
    cases hget : path[k - 1]? with
    | none => simp
    | some x => simp [hk, Nat.not_le.1 hle]
  · next hk => exact iff_of_false (fun h => LoeVerdict.noConfusion h) fun h => hk h.1

/-! ## Extensions -/

variable {newHash prevHash : Hash32} {slot blockNo : Nat} {header : Option BlockHeader}
  {allowExtend : Bool}

/-- The database once the new block is stored. -/
abbrev stored (db : VolatileDB) (newHash : Hash32) (slot blockNo : Nat) (prevHash : Hash32)
    (header : Option BlockHeader) (allowExtend : Bool) : VolatileDB :=
  (db.addBlockGated newHash slot blockNo prevHash header allowExtend).1

theorem lookup_stored (h : Hash32) :
    (stored db newHash slot blockNo prevHash header allowExtend).blocks.lookup h =
      if h = newHash then some ⟨slot, blockNo, prevHash⟩ else db.blocks.lookup h := by
  rw [addBlockGated_blocks, FinMap.lookup_insert_ite]

section
variable (hdb : P.Holds (stored db newHash slot blockNo prevHash header allowExtend).blocks)
  {view : LoeView}
include hdb

/-- The new block is no ancestor of its parent, so paths to the parent stay as they are. -/
theorem leads_stored_iff :
    Leads (stored db newHash slot blockNo prevHash header allowExtend) view prevHash path ↔
      Leads db view prevHash path := by
  set db' := stored db newHash slot blockNo prevHash header allowExtend
  have hlink : IsAncestor db'.blocks prevHash newHash :=
    .single ⟨⟨slot, blockNo, prevHash⟩, (lookup_stored newHash).trans (if_pos rfl), rfl⟩
  have hsame : ∀ x, IsAncestor db'.blocks x newHash → db'.blocks.lookup x = db.blocks.lookup x := by
    intro x hx
    refine (lookup_stored x).trans (if_neg ?_)
    rintro rfl
    exact hdb.acyclic x hx
  have hclosed : ∀ x b, IsAncestor db'.blocks x newHash → db'.blocks.lookup x = some b →
      IsAncestor db'.blocks b.prevHash newHash := fun x b hx hb => .head ⟨b, hb, rfl⟩ hx
  constructor
  · exact fun h => h.mono (fun x hx => (hsame x hx).symm) hclosed hlink
  · exact fun h => h.mono hsame (fun x b hx hb => hclosed x b hx ((hsame x hx).trans hb)) hlink

/-- The blocks of the new candidate beyond the tip: the new block, after those of its parent. -/
theorem leads_new_iff :
    Leads (stored db newHash slot blockNo prevHash header allowExtend) view newHash path ↔
      path = [newHash] ∧ view.tipHit db prevHash = true ∨
        ∃ older, path = older ++ [newHash] ∧ Leads db view prevHash older := by
  set db' := stored db newHash slot blockNo prevHash header allowExtend
  have hlookup : db'.blocks.lookup newHash = some ⟨slot, blockNo, prevHash⟩ :=
    (lookup_stored newHash).trans (if_pos rfl)
  have hself : prevHash ≠ newHash := by
    rintro rfl
    exact hdb.acyclic prevHash (.single ⟨_, hlookup, rfl⟩)
  have htip : view.tipHit db' prevHash = view.tipHit db prevHash := by
    rw [Bool.eq_iff_iff, tipHit_iff, tipHit_iff, lookup_stored, if_neg hself]
  constructor
  · intro h
    cases h with
    | tip hb hhit =>
      rw [hlookup] at hb
      cases hb
      exact .inl ⟨rfl, htip ▸ hhit⟩
    | step hb hpath =>
      rw [hlookup] at hb
      cases hb
      exact .inr ⟨_, rfl, (leads_stored_iff hdb).1 hpath⟩
  · rintro (⟨rfl, hhit⟩ | ⟨older, rfl, hpath⟩)
    · exact .tip hlookup (htip.trans hhit)
    · exact .step hlookup ((leads_stored_iff hdb).2 hpath)

/-- The gate for an extension agrees with the verdict on the block once it is stored. -/
theorem loeAllowsExtension_iff (hnew : db.blocks.lookup newHash = none)
    (hfragment : P.Chain (fragmentPoints anchor entries)) (hk : k ≤ u64Max) :
    loeAllowsExtension db newHash prevHash (build (.fragment anchor entries k)) = true ↔
      loeVerdictForCandidate (stored db newHash slot blockNo prevHash header allowExtend) newHash
        (build (.fragment anchor entries k)) = .allowed := by
  set view := build (.fragment anchor entries k) with hview
  set db' := stored db newHash slot blockNo prevHash header allowExtend
  have hbase : P.Holds db.blocks := by
    intro h b hb
    refine hdb h b ((lookup_stored h).trans ?_)
    rw [if_neg, hb]
    rintro rfl
    rw [hnew] at hb
    cases hb
  have hpaths : ∀ {path}, Past db' (fragmentTip anchor entries) newHash path ↔ _ :=
    fun {path} => (show Past db' view.tipHash newHash path ↔ _ from past_iff_leads).trans
      (leads_new_iff hdb)
  rw [loeAllowsExtension]
  by_cases hmem : newHash ∈ fragmentPoints anchor entries
  · rw [isMember_build.2 hmem, verdict_of_mem hmem]
    simp
  have hmember : view.isMember newHash = false := isMember_build_of_notMem hmem
  rw [hmember, if_neg (show ¬view.disabled = true from Bool.false_ne_true),
    if_neg Bool.false_ne_true]
  by_cases hhit : view.tipHit db prevHash = true
  · rw [if_pos hhit, verdict_of_past hdb hfragment (hpaths.2 (.inl ⟨rfl, hhit⟩)),
      outcome_eq_allowed_iff, decide_eq_true_iff]
    rfl
  rw [if_neg hhit]
  by_cases hold : ∃ older, Leads db view prevHash older
  · obtain ⟨older, hleads⟩ := hold
    have hpast := past_iff_leads.2 hleads
    have hparent : view.isMember prevHash = false :=
      isMember_build_of_notMem (hpast.candidate_notMem hbase hfragment)
    have hdepth : depthPastLoeTip db prevHash view =
        if older.length ≤ satAdd (satAdd k view.members.card) 2 then some older.length
        else none := by
      rw [depthPastLoeTip, hparent, if_neg Bool.false_ne_true]
      have hwalk := depthWalk_of_leads hleads (hpast.clean hbase hfragment).1
        (satAdd (satAdd k view.members.card) 2) 0
      rw [Nat.zero_add, Nat.zero_add] at hwalk
      exact hwalk
    have hcap : k ≤ satAdd (satAdd k view.members.card) 2 := by
      simp only [satAdd]
      omega
    rw [hparent, if_neg Bool.false_ne_true, hdepth, verdict_of_past hdb hfragment (hpaths.2 (.inr
      ⟨older, rfl, hleads⟩)), outcome_eq_allowed_iff, length_append, length_singleton]
    split
    · next d hd =>
      split at hd
      · cases hd
        exact decide_eq_true_iff
      · cases hd
    next hd =>
    split at hd
    · cases hd
    · refine iff_of_false Bool.false_ne_true ?_
      omega
  · have hnone : ¬∃ path, Past db' (fragmentTip anchor entries) newHash path := by
      rintro ⟨path, hpast⟩
      rcases hpaths.1 hpast with ⟨-, htip⟩ | ⟨older, -, hleads⟩
      · exact hhit htip
      · exact hold ⟨older, hleads⟩
    rw [verdict_of_not hmem hnone]
    refine iff_of_false (fun htrue => ?_) LoeVerdict.noConfusion
    split at htrue
    · cases htrue
    next hparent =>
    have hdepth : depthPastLoeTip db prevHash view = none := by
      rw [depthPastLoeTip, if_neg hparent]
      by_contra hne
      exact hold (leads_of_depthWalk members_build_eq_empty _ _ _ hne)
    rw [hdepth] at htrue
    cases htrue

end

/-- A candidate is allowed if it is on the fragment or at most `k` blocks beyond its tip; it is
trimmed to the block `k` past the tip if it is further beyond and `k` is not zero; it is deferred
otherwise. The gate for an extension is the verdict `allowed` on the new block once stored. -/
theorem loe_exact (P : ParentMap) (db : VolatileDB) (anchor : Option Hash32)
    (entries : List Hash32) (k : Nat) (hk : k ≤ u64Max) (hdb : P.Holds db.blocks)
    (hfragment : P.Chain (fragmentPoints anchor entries)) :
    let view := LoeView.build (.fragment anchor entries k)
    let Allowed := fun candidate => candidate ∈ fragmentPoints anchor entries ∨
      ∃ path, Past db (fragmentTip anchor entries) candidate path ∧ path.length ≤ k
    let Trimmed := fun candidate t => 0 < k ∧
      ∃ path, Past db (fragmentTip anchor entries) candidate path ∧ k < path.length ∧
        path[k - 1]? = some t
    (∀ candidate, (loeVerdictForCandidate db candidate view = .allowed ↔ Allowed candidate) ∧
        (∀ t, loeVerdictForCandidate db candidate view = .trimmedTo t ↔ Trimmed candidate t) ∧
        (loeVerdictForCandidate db candidate view = .deferred ↔
          ¬Allowed candidate ∧ ∀ t, ¬Trimmed candidate t)) ∧
      ∀ newHash slot blockNo prevHash header allowExtend,
        let db' := stored db newHash slot blockNo prevHash header allowExtend
        db.blocks.lookup newHash = none → P.Holds db'.blocks →
          (loeAllowsExtension db newHash prevHash view = true ↔
            loeVerdictForCandidate db' newHash view = .allowed) := by
  intro view Allowed Trimmed
  refine ⟨fun candidate => ?_, fun newHash slot blockNo prevHash header allowExtend hnew hdb' =>
    loeAllowsExtension_iff hdb' hnew hfragment hk⟩
  have hallowed : loeVerdictForCandidate db candidate view = .allowed ↔ Allowed candidate := by
    constructor
    · intro hverdict
      by_cases hmem : candidate ∈ fragmentPoints anchor entries
      · exact .inl hmem
      by_cases hpast : ∃ path, Past db (fragmentTip anchor entries) candidate path
      · obtain ⟨path, hpast⟩ := hpast
        rw [verdict_of_past hdb hfragment hpast, outcome_eq_allowed_iff] at hverdict
        exact .inr ⟨path, hpast, hverdict⟩
      · rw [verdict_of_not hmem hpast] at hverdict
        cases hverdict
    · rintro (hmem | ⟨path, hpast, hle⟩)
      · exact verdict_of_mem hmem
      · rw [verdict_of_past hdb hfragment hpast, outcome_eq_allowed_iff]
        exact hle
  have htrimmed : ∀ t, loeVerdictForCandidate db candidate view = .trimmedTo t ↔
      Trimmed candidate t := by
    intro t
    constructor
    · intro hverdict
      by_cases hmem : candidate ∈ fragmentPoints anchor entries
      · rw [verdict_of_mem hmem] at hverdict
        cases hverdict
      by_cases hpast : ∃ path, Past db (fragmentTip anchor entries) candidate path
      · obtain ⟨path, hpast⟩ := hpast
        rw [verdict_of_past hdb hfragment hpast, outcome_eq_trimmedTo_iff] at hverdict
        exact ⟨hverdict.1, path, hpast, hverdict.2⟩
      · rw [verdict_of_not hmem hpast] at hverdict
        cases hverdict
    · rintro ⟨hpos, path, hpast, hlt, hget⟩
      rw [verdict_of_past hdb hfragment hpast, outcome_eq_trimmedTo_iff]
      exact ⟨hpos, hlt, hget⟩
  refine ⟨hallowed, htrimmed, ?_⟩
  rw [← hallowed]
  simp only [← htrimmed]
  cases loeVerdictForCandidate db candidate view <;> simp

/-- The parents that the stored blocks have. -/
def ParentMap.ofBlocks (blocks : FinMap Hash32 VolatileBlock) (h : Acyclic blocks) : ParentMap where
  parent x := (blocks.lookup x).map (·.prevHash)
  acyclic x hbelow := by
    have hparent : ∀ p y, (blocks.lookup y).map (·.prevHash) = some p → IsParent blocks p y :=
      fun p y hp => map_eq_some_iff.1 hp
    exact h x (Relation.TransGen.mono hparent x x hbelow)

/-- Blocks 1, 2 and 3 on top of the anchor 9. -/
def line : VolatileDB :=
  { empty with
    blocks := FinMap.insertAll [(1, ⟨1, 1, 9⟩), (2, ⟨2, 2, 1⟩), (3, ⟨3, 3, 2⟩)] ∅ }

theorem acyclic_line : Acyclic line.blocks :=
  acyclic_insertAll (fun h => if h = 9 then 0 else h.toNat) (by decide)

def lineParents : ParentMap := .ofBlocks line.blocks acyclic_line

theorem holds_line : lineParents.Holds line.blocks := fun _ b hb => map_eq_some_iff.2 ⟨b, hb, rfl⟩

theorem chain_line : lineParents.Chain (fragmentPoints (some 9) [1]) :=
  isChain_pair.2 (by decide +kernel)

theorem past_line : Past line (fragmentTip (some 9) [1]) 3 [2, 3] :=
  ⟨⟨1, ⟨⟨2, 2, 1⟩, by decide +kernel, rfl, ⟨3, 3, 2⟩, by decide +kernel, rfl, trivial⟩, .inl rfl⟩,
    rfl⟩

theorem line_trimmed :
    loeVerdictForCandidate line 3 (LoeView.build (.fragment (some 9) [1] 1)) = .trimmedTo 2 :=
  (((loe_exact lineParents line (some 9) [1] 1 (by decide) holds_line chain_line).1 3).2.1 2).2
    ⟨by decide, [2, 3], past_line, by decide, rfl⟩

/-- With `k = 0` a candidate beyond the tip is not trimmed to the tip but deferred. -/
theorem zero_k_deferred :
    lineParents.Holds line.blocks ∧ lineParents.Chain (fragmentPoints (some 9) [1]) ∧
      Past line (fragmentTip (some 9) [1]) 3 [2, 3] ∧ 0 < [2, 3].length ∧
      loeVerdictForCandidate line 3 (LoeView.build (.fragment (some 9) [1] 0)) = .deferred :=
  ⟨holds_line, chain_line, past_line, by decide, by decide +kernel⟩

end Dugite
