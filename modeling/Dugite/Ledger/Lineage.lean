import Dugite.Ledger.Enactment

/-!
# Removing proposals with what depends on them

`Continues proposals x y` says that the open proposal `y` names the open proposal `x` of its own
purpose, and `Descends` closes it under composition. A statement about the trees that stays when a
node goes together with its proposal (`TreeProp.Kept`) stays when proposals are dropped with what
descends from them, and when proposals are enacted.
-/

namespace Dugite

open Finset GovernanceState SubStates Option

/-- An open proposal names another one of its purpose. -/
def Continues (proposals : Proposals) (x y : GovActionId) : Prop :=
  ∃ purpose, purposeOf proposals x = some purpose ∧ purposeOf proposals y = some purpose ∧
    prevOf proposals y = some x

abbrev Descends (proposals : Proposals) : GovActionId → GovActionId → Prop :=
  Relation.TransGen (Continues proposals)

variable {proposals : Proposals}

/-- A descendant has the purpose of its ancestor. -/
theorem Descends.purpose {x y : GovActionId} (h : Descends proposals x y) {purpose : GovPurpose}
    (hx : purposeOf proposals x = some purpose) : purposeOf proposals y = some purpose := by
  induction h with
  | single h =>
    obtain ⟨p, hxp, hyp, -⟩ := h
    rw [hx] at hxp
    rw [hyp, hxp]
  | tail _ h ih =>
    obtain ⟨p, hxp, hyp, -⟩ := h
    rw [ih] at hxp
    rw [hyp, hxp]

/-! ## The trees that stay -/

variable {gov : GovernanceState} {P : TreeProp} {id : GovActionId}

theorem tree_removeProposalNode (proposals : Proposals) (forest : ProposalForest)
    (id : GovActionId) (purpose : GovPurpose) :
    (removeProposalNode proposals forest id).tree purpose =
      if purposeOf proposals id = some purpose then (forest.tree purpose).removeNode id
      else forest.tree purpose := by
  rw [removeProposalNode]
  cases purposeOf proposals id with
  | none => rfl
  | some p =>
  simp only [ProposalForest.tree_modify, some.injEq]
  by_cases h : purpose = p
  · simp [h]
  · simp [h, Ne.symm h]

/-- A statement about a tree, the open proposals of its purpose and the actions they name. -/
abbrev TreeProp := PTree → (GovActionId → Prop) → (GovActionId → Option GovActionId) → Prop

/-- It holds of the tree of a purpose. -/
def TreeProp.At (P : TreeProp) (gov : GovernanceState) (purpose : GovPurpose) : Prop :=
  P (gov.forest.tree purpose) (fun id => purposeOf gov.proposals id = some purpose)
    (prevOf gov.proposals)

/-- It stays when a node goes together with its proposal. -/
structure TreeProp.Kept (P : TreeProp) : Prop where
  congr : ∀ {tree active active' prev prev'}, P tree active prev →
    (∀ id, active id ↔ active' id) → (∀ id, active id → prev id = prev' id) → P tree active' prev'
  removeNode : ∀ {tree active prev}, P tree active prev → ∀ id,
    P (tree.removeNode id) (fun x => active x ∧ x ≠ id) prev

theorem TreeProp.Kept.removeNodes (hP : P.Kept)
    {purpose : GovPurpose} {prev : GovActionId → Option GovActionId} (ids : List GovActionId) :
    ∀ {forest : ProposalForest} {active : GovActionId → Prop}, P (forest.tree purpose) active prev →
      P ((ids.foldl (removeProposalNode proposals) forest).tree purpose)
        (fun x => active x ∧ ¬ (x ∈ ids ∧ purposeOf proposals x = some purpose)) prev := by
  induction ids with
  | nil =>
    intro forest active h
    exact hP.congr h (by simp) fun _ _ => rfl
  | cons id ids ih =>
    intro forest active h
    have hnext : P ((removeProposalNode proposals forest id).tree purpose)
        (fun x => active x ∧ ¬ (x = id ∧ purposeOf proposals x = some purpose)) prev := by
      rw [tree_removeProposalNode]
      split
      · next hid =>
        refine hP.congr (hP.removeNode h id) (fun x => and_congr_right fun _ => not_congr ?_)
          fun _ _ => rfl
        exact ⟨fun hx => ⟨hx, hx ▸ hid⟩, fun hx => hx.1⟩
      next hid =>
      refine hP.congr h (fun x => ⟨fun hx => ⟨hx, ?_⟩, fun hx => hx.1⟩) fun _ _ => rfl
      rintro ⟨rfl, hpurpose⟩
      exact hid hpurpose
    refine hP.congr (ih hnext) (fun x => ?_) fun _ _ => rfl
    simp only [List.mem_cons]
    tauto

/-- `after` has the proposals of `before` without those that are `gone`. -/
structure Without (before after : Proposals) (gone : GovActionId → Prop) : Prop where
  goes : ∀ {id}, gone id → after.lookup id = none
  stays : ∀ {id}, ¬ gone id → after.lookup id = before.lookup id

namespace Without

variable {before after : Proposals} {gone : GovActionId → Prop} {id : GovActionId}

section
variable (h : Without before after gone)
include h

/-- What is active among the proposals that are left. -/
theorem purposeOf_eq_some {purpose : GovPurpose} :
    purposeOf after id = some purpose ↔ purposeOf before id = some purpose ∧ ¬ gone id := by
  rw [purposeOf, purposeOf]
  by_cases hid : gone id
  · simp [h.goes hid, hid]
  · simp [h.stays hid, hid]

theorem prevOf_eq (hid : ¬ gone id) : prevOf after id = prevOf before id := by
  rw [prevOf, h.stays hid, prevOf]

theorem eq_none (hid : before.lookup id = none) : after.lookup id = none := by
  by_cases hgone : gone id
  · exact h.goes hgone
  · rw [h.stays hgone, hid]

theorem isSome_iff : (after.lookup id).isSome ↔ (before.lookup id).isSome ∧ ¬ gone id := by
  by_cases hid : gone id
  · simp [h.goes hid, hid]
  · simp [h.stays hid, hid]

end

/-- What holds of a tree whose removed nodes are the removed proposals. -/
theorem treeAt {gov' : GovernanceState} {purpose : GovPurpose} (hP : P.Kept)
    (h : Without gov.proposals gov'.proposals gone) (htree : P (gov'.forest.tree purpose)
      (fun x => purposeOf gov.proposals x = some purpose ∧ ¬ gone x) (prevOf gov.proposals)) :
    P.At gov' purpose :=
  hP.congr htree (fun _ => h.purposeOf_eq_some.symm) fun _ hid => (h.prevOf_eq hid.2).symm

end Without

variable {s : SubStates} {purpose : GovPurpose}
  {acc : List (GovActionId × ProposalState) × SubStates}

theorem Removes.without {s' : SubStates} {removed : List (GovActionId × ProposalState)}
    (h : Removes s s' removed) :
    Without s.gov.proposals s'.gov.proposals fun id => id ∈ removed.map (·.1) :=
  ⟨fun hid => by rw [h.lookup, if_pos hid], fun hid => by rw [h.lookup, if_neg hid]⟩

theorem isSome_of_purposeOf
    (h : purposeOf proposals id = some purpose) : (proposals.lookup id).isSome := by
  obtain ⟨state, hstate, -⟩ := bind_eq_some_iff.1 h
  rw [hstate]
  rfl

theorem TreeProp.Kept.dropProposals (hP : P.Kept)
    (h : P.At s.gov purpose) (ids : List GovActionId) :
    P.At (s.dropProposals ids).2.gov purpose := by
  refine (removes_dropProposals s ids).without.treeAt hP ?_
  refine hP.congr (hP.removeNodes (sortedIds (s.gov.removalSet ids)) h) (fun x => ?_) fun _ _ => rfl
  rw [mem_dropProposals, mem_sortedIds]
  refine and_congr_right fun hx => not_congr ?_
  exact ⟨fun hmem => ⟨hmem.1, isSome_of_purposeOf hx⟩, fun hmem => ⟨hmem.1, hx⟩⟩

theorem isSome_of_removeNode {tree : PTree} {x : GovActionId}
    (h : ((tree.removeNode id).graph.lookup x).isSome) :
    (tree.graph.lookup x).isSome ∧ x ≠ id := by
  rw [PTree.lookup_graph_removeNode] at h
  split at h
  · cases h
  · next hne =>
    rw [isSome_map] at h
    exact ⟨h, hne⟩

theorem without_enactOne (acc : List (GovActionId × ProposalState) × SubStates) (id : GovActionId) :
    Without acc.2.gov.proposals (enactOne acc id).2.gov.proposals fun x => x = id := by
  have hproposals : (enactOne acc id).2.gov.proposals = acc.2.gov.proposals.erase id := by
    rw [enactOne]
    split <;> rfl
  rw [hproposals]
  refine ⟨fun {x} hx => ?_, fun {x} hx => ?_⟩
  · rw [FinMap.lookup_erase_ite, if_pos hx]
  · rw [FinMap.lookup_erase_ite, if_neg hx]

/-- What holds of the trees holds when proposals are enacted, until one becomes a root. -/
theorem TreeProp.Kept.enactOne (hP : P.Kept) (h : P.At acc.2.gov purpose) (id : GovActionId) :
    P.At (enactOne acc id).2.gov purpose := by
  refine (without_enactOne acc id).treeAt hP ?_
  have hforest : (SubStates.enactOne acc id).2.gov.forest =
      removeProposalNode acc.2.gov.proposals acc.2.gov.forest id := by
    rw [SubStates.enactOne]
    split <;> rfl
  rw [hforest]
  refine hP.congr (hP.removeNodes [id] h) (fun x => and_congr_right fun hx => not_congr ?_)
    fun _ _ => rfl
  rw [List.mem_singleton]
  exact ⟨fun hmem => hmem.1, fun heq => ⟨heq, hx⟩⟩

/-! ## The roots -/

/-- The last enacted action of a purpose, as the forest has it. -/
def GovernanceState.rootOf (gov : GovernanceState) (purpose : GovPurpose) : Option GovActionId :=
  (gov.forest.tree purpose).root.root

theorem root_kept (root : Option GovActionId) :
    TreeProp.Kept fun tree _ _ => tree.root.root = root where
  congr h _ _ := h
  removeNode h _ := h

theorem rootOf_dropProposals (s : SubStates) (ids : List GovActionId) (purpose : GovPurpose) :
    (s.dropProposals ids).2.gov.rootOf purpose = s.gov.rootOf purpose :=
  (root_kept _).dropProposals rfl ids

/-! ## The siblings of an enacted action -/

/-- The ids that the third loop of `proposals_apply_enactment` removes for an enacted action. -/
def siblingsOf (s : SubStates) (e : GovActionId) (purpose : GovPurpose) : List GovActionId :=
  sortedIds ((s.gov.forest.tree purpose).root.children.erase e)

/-- The loop drops the siblings and makes the enacted action the root. -/
theorem dropSiblings_of_tag {e : GovActionId × ProposalState}
    (htag : govActionPurposeTag e.2.procedure.govAction = some purpose) :
    s.dropSiblings e = { (s.dropProposals (siblingsOf s e.1 purpose)).2 with
        gov := { (s.dropProposals (siblingsOf s e.1 purpose)).2.gov with
          forest := (s.dropProposals (siblingsOf s e.1 purpose)).2.gov.forest.modify purpose
            fun tree => tree.promoteRoot e.1 } } := by
  rw [dropSiblings, htag]
  rfl

end Dugite
