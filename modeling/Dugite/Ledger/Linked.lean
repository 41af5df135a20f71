import Dugite.Ledger.Submission

/-!
# The links of the forest

A tree loses its shape when an action is enacted whose children are still open, or when a proposal
names one of another purpose. What every run keeps is weaker: a child of the root or in the graph is
an open proposal that names its parent, and in the graph has a node of its own (`LinkedTree`). That
is enough for `forest_remove_with_descendants` to take nothing but what descends from the given
proposals. An open proposal may be missing from its tree.
-/

namespace Dugite

open List PTree SubStates FinMap

/-- The links of a tree are sound: its children are open and name what they stand below. -/
structure LinkedTree (tree : PTree) (active : GovActionId → Prop)
    (prev : GovActionId → Option GovActionId) : Prop where
  top : ∀ {c}, c ∈ tree.root.children → active c ∧ prev c = tree.root.root
  isOpen : ∀ {x edges c}, tree.graph.lookup x = some edges → c ∈ edges.children → active c
  named : ∀ {x edges c}, tree.graph.lookup x = some edges → c ∈ edges.children → prev c = some x
  node : ∀ {x edges c}, tree.graph.lookup x = some edges → c ∈ edges.children →
    ∃ edges', tree.graph.lookup c = some edges' ∧ edges'.parent = some x

/-- Only what is orphaned changes. -/
theorem PTree.lookup_foldl_orphan (ids : List GovActionId) (nodes : PGraph) (k : GovActionId) :
    (ids.foldl orphan nodes).lookup k =
      if k ∈ ids.map id then (nodes.lookup k).map ({ · with parent := none })
      else nodes.lookup k := by
  refine lookup_foldl_at (F := fun _ v => v.map ({ · with parent := none }))
    (fun _ v => by cases v <;> rfl) (fun nodes id k => ?_) ids nodes k
  rw [orphan]
  by_cases hk : k = id
  · subst hk
    cases hid : nodes.lookup k <;> simp [hid]
  · cases nodes.lookup id <;> simp [hk]

variable {ids : List GovActionId}

/-- The children of a node stay. -/
theorem PTree.children_foldl_orphan {nodes : PGraph} {k : GovActionId}
    {edges : PEdges} (h : (ids.foldl orphan nodes).lookup k = some edges) :
    ∃ old, nodes.lookup k = some old ∧ old.children = edges.children := by
  rw [lookup_foldl_orphan] at h
  split at h
  · obtain ⟨old, hold, rfl⟩ := Option.map_eq_some_iff.1 h
    exact ⟨old, hold, rfl⟩
  · exact ⟨edges, h, rfl⟩

namespace LinkedTree

variable {tree : PTree} {active active' : GovActionId → Prop}
  {prev prev' : GovActionId → Option GovActionId}
  (h : LinkedTree tree active prev) {id : GovActionId}
include h

theorem congr (hactive : ∀ id, active id ↔ active' id)
    (hprev : ∀ id, active id → prev id = prev' id) : LinkedTree tree active' prev' where
  top hc := ⟨(hactive _).1 (h.top hc).1, hprev _ (h.top hc).1 ▸ (h.top hc).2⟩
  isOpen hx hc := (hactive _).1 (h.isOpen hx hc)
  named hx hc := by
    rw [← hprev _ (h.isOpen hx hc)]
    exact h.named hx hc
  node := h.node

theorem removeNode (id : GovActionId) :
    LinkedTree (tree.removeNode id) (fun x => active x ∧ x ≠ id) prev := by
  -- a child that stays was a child before, of the same node, and is not the one that goes
  have hold : ∀ {x edges c}, (tree.removeNode id).graph.lookup x = some edges →
      c ∈ edges.children → c ≠ id ∧ ∃ old, tree.graph.lookup x = some old ∧ c ∈ old.children := by
    intro x edges c hx hc
    rw [lookup_graph_removeNode] at hx
    split at hx
    · cases hx
    obtain ⟨old, hnode, rfl⟩ := Option.map_eq_some_iff.1 hx
    split at hc
    · rw [Finset.mem_erase] at hc
      exact ⟨hc.1, old, hnode, hc.2⟩
    next hparent =>
    refine ⟨?_, old, hnode, hc⟩
    rintro rfl
    obtain ⟨edges', hedges', hpar⟩ := h.node hnode hc
    rw [hedges'] at hparent
    exact hparent hpar
  refine ⟨fun hc => ?_, fun hx hc => ?_, fun hx hc => ?_, fun hx hc => ?_⟩
  · obtain ⟨hne, hc⟩ := Finset.mem_erase.1 hc
    exact ⟨⟨(h.top hc).1, hne⟩, (h.top hc).2⟩
  · obtain ⟨hne, old, hnode, hold⟩ := hold hx hc
    exact ⟨h.isOpen hnode hold, hne⟩
  · obtain ⟨-, old, hnode, hold⟩ := hold hx hc
    exact h.named hnode hold
  · obtain ⟨hne, old, hnode, hold⟩ := hold hx hc
    obtain ⟨edges', hedges', hparent⟩ := h.node hnode hold
    rw [lookup_graph_removeNode, if_neg hne, hedges', Option.map_some]
    refine ⟨_, rfl, ?_⟩
    split <;> exact hparent

/-- An action that is no longer open becomes the root. -/
theorem promoteRoot (hid : ¬ active id) : LinkedTree (tree.promoteRoot id) active prev := by
  rw [PTree.promoteRoot]
  cases hnode : tree.graph.lookup id with
  | none => exact { h with top := fun hc => absurd hc (Finset.notMem_empty _) }
  | some edges =>
  have hold : ∀ {x edges' c},
      ((sortedIds edges.children).foldl orphan (tree.graph.erase id)).lookup x =
        some edges' → c ∈ edges'.children →
      x ≠ id ∧ ∃ old, tree.graph.lookup x = some old ∧ c ∈ old.children := by
    intro x edges' c hx hc
    obtain ⟨old, hlookup, hchildren⟩ := children_foldl_orphan hx
    rw [lookup_erase_ite] at hlookup
    split at hlookup
    · cases hlookup
    · next hne => exact ⟨hne, old, hlookup, hchildren ▸ hc⟩
  refine ⟨fun hc => ⟨h.isOpen hnode hc, h.named hnode hc⟩, fun hx hc => ?_, fun hx hc => ?_,
    fun {x edges' c} hx hc => ?_⟩
  · obtain ⟨-, old, hlookup, hmem⟩ := hold hx hc
    exact h.isOpen hlookup hmem
  · obtain ⟨-, old, hlookup, hmem⟩ := hold hx hc
    exact h.named hlookup hmem
  · obtain ⟨hne, old, hlookup, hmem⟩ := hold hx hc
    obtain ⟨edges'', hedges'', hparent⟩ := h.node hlookup hmem
    refine ⟨edges'', ?_, hparent⟩
    -- a child of another node names that node, so it is not orphaned
    have hkept : c ∉ sortedIds edges.children := by
      intro horphan
      have hother := h.named hnode (mem_sortedIds.1 horphan)
      rw [h.named hlookup hmem] at hother
      exact hne (Option.some.inj hother)
    have hcid : c ≠ id := fun heq => hid (heq ▸ h.isOpen hlookup hmem)
    rw [lookup_foldl_orphan, map_id, if_neg hkept, lookup_erase_ite, if_neg hcid, hedges'']

/-- A new proposal joins as a child of the root or of the node it names. -/
theorem addProposal (hnew : ¬ active id)
    (hnode : tree.graph.lookup id = none) (hself : prev id ≠ some id) :
    LinkedTree (tree.addProposal id (prev id)) (fun x => active x ∨ x = id) prev := by
  have hkeep : LinkedTree tree (fun x => active x ∨ x = id) prev :=
    ⟨fun hc => ⟨.inl (h.top hc).1, (h.top hc).2⟩, fun hx hc => .inl (h.isOpen hx hc), h.named, h.node⟩
  by_cases hdirect : prev id = tree.root.root
  · rw [PTree.addProposal, if_pos hdirect]
    refine { hkeep with top := fun hc => ?_ }
    rcases Finset.mem_insert.1 hc with rfl | hc
    · exact ⟨.inr rfl, hdirect⟩
    · exact hkeep.top hc
  cases hprev : prev id with
  | none =>
    rw [hprev] at hdirect
    -- a node without children, and nothing else
    have hold : ∀ {x edges c}, (tree.graph.insert id ⟨none, ∅⟩).lookup x = some edges →
        c ∈ edges.children → tree.graph.lookup x = some edges := by
      intro x edges c hx hc
      rw [lookup_insert_ite] at hx
      split at hx
      · cases hx
        cases hc
      · exact hx
    rw [PTree.addProposal, if_neg hdirect]
    refine ⟨hkeep.top, fun hx hc => hkeep.isOpen (hold hx hc) hc, fun hx hc => h.named (hold hx hc) hc,
      fun {x edges c} hx hc => ?_⟩
    obtain ⟨edges', hedges', hparent⟩ := h.node (hold hx hc) hc
    refine ⟨edges', ?_, hparent⟩
    have hne : c ≠ id := fun heq => hnew (heq ▸ h.isOpen (hold hx hc) hc)
    rw [lookup_insert_ite, if_neg hne, hedges']
  | some q =>
    rw [hprev] at hdirect
    have hq : q ≠ id := fun heq => hself (heq ▸ hprev)
    have hlookup := lookup_graph_addProposal hdirect hq
    -- a child is the new one under its parent, or was there before
    have hold : ∀ {x edges c}, (tree.addProposal id (some q)).graph.lookup x = some edges →
        c ∈ edges.children → c = id ∧ x = q ∨
          ∃ old, tree.graph.lookup x = some old ∧ c ∈ old.children := by
      intro x edges c hx hc
      rw [hlookup] at hx
      split at hx
      · next hxq =>
        cases hx
        rcases mem_children_edgesWith.1 hc with hc | hc
        · exact .inr (hxq ▸ mem_childrenOf_iff.1 hc)
        · exact .inl ⟨hc, hxq⟩
      split at hx
      · cases hx
        cases hc
      · exact .inr ⟨edges, hx, hc⟩
    have hroot : (tree.addProposal id (some q)).root = tree.root := by
      rw [PTree.addProposal, if_neg hdirect]
    refine ⟨hroot ▸ hkeep.top, fun hx hc => ?_, fun hx hc => ?_, fun {x edges c} hx hc => ?_⟩
    · rcases hold hx hc with ⟨hc, -⟩ | ⟨old, hx, hc⟩
      · exact .inr hc
      · exact .inl (h.isOpen hx hc)
    · rcases hold hx hc with ⟨rfl, rfl⟩ | ⟨old, hx, hc⟩
      · exact hprev
      · exact h.named hx hc
    · rw [hlookup]
      rcases hold hx hc with ⟨rfl, rfl⟩ | ⟨old, hx, hc⟩
      · exact ⟨⟨some x, ∅⟩, by rw [if_neg hq.symm, if_pos rfl], rfl⟩
      obtain ⟨edges', hedges', hparent⟩ := h.node hx hc
      have hne : c ≠ id := fun heq => hnew (heq ▸ h.isOpen hx hc)
      by_cases hcq : c = q
      · rw [if_pos hcq, ← hcq, edgesWith, hedges']
        exact ⟨_, rfl, hparent⟩
      · rw [if_neg hcq, if_neg hne]
        exact ⟨edges', hedges', hparent⟩

end LinkedTree

/-! ## The forest -/

/-- The children in the trees are open proposals of the purpose that name their parents. -/
def Linked (gov : GovernanceState) : Prop :=
  ∀ purpose, LinkedTree (gov.forest.tree purpose)
    (fun id => purposeOf gov.proposals id = some purpose) (prevOf gov.proposals)

variable {gov : GovernanceState} {s : SubStates} {id y : GovActionId}
  {e : GovActionId × ProposalState} {ratified : List GovActionId}

/-- A removal takes nothing but what descends from the given ids. -/
theorem Linked.mem_removalSet (h : Linked gov) (hy : y ∈ gov.removalSet ids) :
    y ∈ ids ∨ ∃ x ∈ ids, Descends gov.proposals x y := by
  have hbelow : ∀ {purpose x y}, purposeOf gov.proposals x = some purpose →
      Reach.Below (gov.forest.tree purpose).childrenOf x y → Descends gov.proposals x y := by
    intro purpose x y hx hbelow
    have hchild : ∀ {a b}, b ∈ (gov.forest.tree purpose).childrenOf a →
        purposeOf gov.proposals b = some purpose ∧ prevOf gov.proposals b = some a := by
      intro a b hb
      obtain ⟨edges, hedges, hb⟩ := mem_childrenOf_iff.1 hb
      exact ⟨(h purpose).isOpen hedges hb, (h purpose).named hedges hb⟩
    induction hbelow with
    | single hb => exact .single ⟨purpose, hx, hchild hb⟩
    | tail _ hb ih => exact ih.tail ⟨purpose, Descends.purpose ih hx, hchild hb⟩
  have hloop : ∀ (l : List GovActionId) (out : Finset GovActionId),
      y ∈ l.foldl gov.withDescendants out →
      y ∈ out ∨ y ∈ l ∨ ∃ x ∈ l, Descends gov.proposals x y := by
    intro l
    induction l with
    | nil => exact fun out hy => .inl hy
    | cons id l ih =>
      intro out hy
      simp only [mem_cons, exists_eq_or_imp]
      rcases ih _ hy with hy | hy | hy
      · rw [GovernanceState.withDescendants] at hy
        split at hy
        · next purpose hpurpose =>
          rcases Reach.below_of_mem_collect _ hy with hy | hy
          · rcases Finset.mem_insert.1 hy with hy | hy
            · exact .inr (.inl (.inl hy))
            · exact .inl hy
          · exact .inr (.inr (.inl (hbelow hpurpose hy)))
        · rcases Finset.mem_insert.1 hy with hy | hy
          · exact .inr (.inl (.inl hy))
          · exact .inl hy
      · exact .inr (.inl (.inr hy))
      · exact .inr (.inr (.inr hy))
  rcases hloop ids ∅ hy with hy | hy
  · cases hy
  · exact hy

/-- A removal takes the given ids. -/
theorem mem_removalSet_of_mem (gov : GovernanceState) (hy : y ∈ ids) : y ∈ gov.removalSet ids := by
  have hstep : ∀ out id, insert id out ⊆ gov.withDescendants out id := by
    intro out id
    rw [GovernanceState.withDescendants]
    split
    · exact Reach.subset_collect _ id _
    · exact Finset.Subset.refl _
  have hloop : ∀ (l : List GovActionId) (out : Finset GovActionId), y ∈ l ∨ y ∈ out →
      y ∈ l.foldl gov.withDescendants out := by
    intro l
    induction l with
    | nil => exact fun out h => h.resolve_left not_mem_nil
    | cons id l ih =>
      intro out h
      refine ih _ ?_
      rw [mem_cons, or_assoc] at h
      rcases h with heq | hmem | hout
      · exact .inr (hstep out id (heq ▸ Finset.mem_insert_self y out))
      · exact .inl hmem
      · exact .inr (hstep out id (Finset.mem_insert_of_mem hout))
  exact hloop ids ∅ (.inl hy)

theorem Linked.empty (hforest : gov.forest = {}) : Linked gov := by
  intro purpose
  have hnone : (gov.forest.tree purpose).root.children = ∅ ∧
      ∀ x, (gov.forest.tree purpose).graph.lookup x = none := by
    rw [hforest]
    cases purpose <;> exact ⟨rfl, fun _ => rfl⟩
  have hempty : ∀ {x edges}, (gov.forest.tree purpose).graph.lookup x ≠ some edges := by
    intro x edges hx
    rw [hnone.2 x] at hx
    cases hx
  exact ⟨fun hc => absurd (hnone.1 ▸ hc) (Finset.notMem_empty _), fun hx => absurd hx hempty,
    fun hx => absurd hx hempty, fun hx => absurd hx hempty⟩

theorem LinkedTree.kept : TreeProp.Kept LinkedTree := ⟨fun h => h.congr, fun h => h.removeNode⟩

/-- The promotion of an action that is no longer open. -/
theorem Linked.dropSiblings (h : Linked s.gov)
    (he : s.gov.proposals.lookup e.1 = none) : Linked (s.dropSiblings e).gov := by
  cases htag : govActionPurposeTag e.2.procedure.govAction with
  | none =>
    rw [SubStates.dropSiblings, htag]
    exact h
  | some purpose =>
  rw [dropSiblings_of_tag htag]
  have hdrop : Linked (s.dropProposals (siblingsOf s e.1 purpose)).2.gov :=
    fun purpose => LinkedTree.kept.dropProposals (h purpose) _
  intro other
  rw [ProposalForest.tree_modify]
  split
  · next hsame =>
    rw [hsame]
    refine (hdrop purpose).promoteRoot fun hopen => ?_
    have hbefore := (removes_dropProposals s (siblingsOf s e.1
      purpose)).without.purposeOf_eq_some.1 hopen
    have hsome := isSome_of_purposeOf hbefore.1
    rw [he] at hsome
    cases hsome
  · exact hdrop other

theorem lookup_dropSiblings_of_none (h : s.gov.proposals.lookup id = none) :
    (s.dropSiblings e).gov.proposals.lookup id = none := by
  cases htag : govActionPurposeTag e.2.procedure.govAction with
  | none =>
    rw [dropSiblings, htag]
    exact h
  | some purpose =>
    rw [dropSiblings_of_tag htag]
    exact (removes_dropProposals s _).without.eq_none h

/-- What the second loop collects was given to it and is no longer open. -/
theorem closed_foldl_enactOne (ids : List GovActionId) (s : SubStates) :
    ∀ e ∈ (ids.foldl enactOne ([], s)).1, e.1 ∈ ids ∧
      (ids.foldl enactOne ([], s)).2.gov.proposals.lookup e.1 = none := by
  refine foldlRecOn (motive := fun acc : List (GovActionId × ProposalState) × SubStates =>
    ∀ e ∈ acc.1, e.1 ∈ ids ∧ acc.2.gov.proposals.lookup e.1 = none) ids _ (fun e he => by cases he)
    fun acc hgone id hid e he => ?_
  obtain ⟨removed, hout, -, hids⟩ := removes_enactOne acc id
  have hwithout := without_enactOne acc id
  rw [hout, mem_append] at he
  rcases he with he | he
  · exact ⟨(hgone e he).1, hwithout.eq_none (hgone e he).2⟩
  · exact ⟨hids e he ▸ hid, hwithout.goes (hids e he)⟩

/-- Whatever the three loops keep, a boundary keeps. -/
theorem proposalsApplyEnactment_induct {P : SubStates → Prop} (expired : List GovActionId)
    (hdrop : ∀ {s} ids, P s → P (s.dropProposals ids).2)
    (henact : ∀ {acc} id, P acc.2 → P (enactOne acc id).2)
    (hsiblings : ∀ {s e}, e.1 ∈ ratified → s.gov.proposals.lookup e.1 = none → P s →
      P (s.dropSiblings e))
    (hlast : ∀ {s} lastRatified lastExpired, P s → P { s with gov := { s.gov with
      lastRatified := lastRatified, lastExpired := lastExpired } })
    (h : P s) : P (s.proposalsApplyEnactment ratified expired) := by
  have hsecond := foldlRecOn (motive := fun acc => P acc.2) ratified enactOne
    (b := ([], (s.dropProposals expired).2)) (hdrop expired h) fun _ h id _ => henact id h
  have hclosed := closed_foldl_enactOne ratified (s.dropProposals expired).2
  refine hlast _ _ (foldlRecOn (motive := fun s : SubStates => P s ∧
    ∀ e : GovActionId × ProposalState, e ∈ _ → e.1 ∈ ratified ∧ s.gov.proposals.lookup e.1 = none)
    _ _ ⟨hsecond, hclosed⟩ fun s h e he => ⟨?_, ?_⟩).1
  · exact hsiblings (h.2 e he).1 (h.2 e he).2 h.1
  · exact fun x hx => ⟨(h.2 x hx).1, lookup_dropSiblings_of_none (h.2 x hx).2⟩

/-- An enacted proposal is no longer open. -/
theorem lookup_proposalsApplyEnactment_of_mem (s : SubStates)
    (expired : List GovActionId) (hid : id ∈ ratified) :
    (s.proposalsApplyEnactment ratified expired).gov.proposals.lookup id = none := by
  have hsecond : ∀ (ids : List GovActionId) (acc : List (GovActionId × ProposalState) × SubStates),
      id ∈ ids ∨ acc.2.gov.proposals.lookup id = none →
      (ids.foldl enactOne acc).2.gov.proposals.lookup id = none := by
    intro ids
    induction ids with
    | nil => exact fun acc h => h.resolve_left not_mem_nil
    | cons k ids ih =>
      intro acc h
      refine ih _ ?_
      rw [mem_cons, or_assoc] at h
      rcases h with heq | hmem | hnone
      · exact .inr ((without_enactOne acc k).goes heq)
      · exact .inl hmem
      · exact .inr ((without_enactOne acc k).eq_none hnone)
  exact foldlRecOn (motive := fun s : SubStates => s.gov.proposals.lookup id = none) _ _
    (hsecond ratified _ (.inl hid)) fun _ h _ _ => lookup_dropSiblings_of_none h

/-- A whole boundary keeps the links, whatever it is given. -/
theorem Linked.proposalsApplyEnactment (h : Linked s.gov) (ratified expired : List GovActionId) :
    Linked (s.proposalsApplyEnactment ratified expired).gov :=
  proposalsApplyEnactment_induct (P := fun s => Linked s.gov) expired
    (fun ids h purpose => LinkedTree.kept.dropProposals (h purpose) ids)
    (fun id h purpose => LinkedTree.kept.enactOne (h purpose) id)
    (fun _ hgone h => h.dropSiblings hgone) (fun _ _ h => h) h

/-! ## New proposals -/

/-- An id that occurs nowhere. -/
structure Unseen (gov : GovernanceState) (id : GovActionId) : Prop extends FreshId gov id where
  notEnacted : ∀ purpose, gov.enacted.get purpose ≠ some id
  noNode : ∀ purpose, (gov.forest.tree purpose).graph.lookup id = none

theorem Linked.openProposal (h : Linked gov) {state : ProposalState} (hunseen : Unseen gov id)
    (hself : govActionPrevId state.procedure.govAction ≠ some id) :
    Linked (gov.openProposal id state) := by
  intro purpose
  refine LinkedTree.kept.openProposal (h purpose) hunseen.closed fun prev htag hprev hold hkept => ?_
  rw [← hprev] at hself
  refine hkept.addProposal ?_ (hunseen.noNode purpose) hself
  exact fun hopen => ne_of_purposeOf hunseen.closed hopen rfl

end Dugite
