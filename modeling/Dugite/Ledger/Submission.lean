import Dugite.Ledger.Lineage

/-!
# Proposals that join the forest

What accepting a proposal does to the governance state (`ConwayRules.applyProposal_ok`), and what
stays true of the trees when a proposal with a new id joins them (`TreeProp.Kept.openProposal`).
-/

namespace Dugite

open GovernanceState ConwayRules

namespace EnactedGovRoots

def get (roots : EnactedGovRoots) : GovPurpose → Option GovActionId
  | .pparam => roots.pparamUpdate
  | .hardFork => roots.hardFork
  | .committee => roots.committee
  | .constitution => roots.constitution

theorem rootFor_of_tag (roots : EnactedGovRoots) {action : GovAction} {purpose : GovPurpose}
    (h : govActionPurposeTag action = some purpose) : roots.rootFor action = roots.get purpose := by
  cases action <;> cases h <;> rfl

end EnactedGovRoots

/-- An id that nothing knows. -/
structure FreshId (gov : GovernanceState) (id : GovActionId) : Prop where
  closed : gov.proposals.lookup id = none
  notRoot : ∀ purpose, gov.rootOf purpose ≠ some id
  unnamed : ∀ x, prevOf gov.proposals x ≠ some id

/-- The governance state with one more proposal. -/
def GovernanceState.openProposal (gov : GovernanceState) (id : GovActionId)
    (state : ProposalState) : GovernanceState :=
  { gov with
    proposals := gov.proposals.insert id state
    proposalCount := wrapAdd gov.proposalCount 1
    forest := match govActionPurposeTag state.procedure.govAction with
      | some purpose => gov.forest.modify purpose fun tree =>
          tree.addProposal id (govActionPrevId state.procedure.govAction)
      | none => gov.forest }

/-- What accepting a proposal does: it is opened, or it is a hard fork that is dropped. -/
theorem ConwayRules.applyProposal_ok {ctx : RuleContext} {tx : Transaction} {s s' : SubStates}
    {e : ProposalProcedure × Nat} (h : applyProposal ctx tx s e = .ok s') :
    prevIsValid s.gov e.1.govAction ∧ (s' = s ∨ ∃ state : ProposalState, state.procedure = e.1 ∧
        s' = { s with gov := s.gov.openProposal (actionId tx e.2) state }) := by
  unfold applyProposal at h
  dsimp only at h
  split at h
  · cases h
  next hvalid =>
  rw [Bool.not_eq_true', Bool.not_eq_false] at hvalid
  refine ⟨hvalid, ?_⟩
  split at h
  · cases h
    exact .inl rfl
  · cases h
    exact .inr ⟨_, rfl, rfl⟩

variable {gov : GovernanceState} {id : GovActionId} {state : ProposalState} (purpose : GovPurpose)

theorem tree_openProposal : (gov.openProposal id state).forest.tree purpose =
      if govActionPurposeTag state.procedure.govAction = some purpose then
        (gov.forest.tree purpose).addProposal id (govActionPrevId state.procedure.govAction)
      else gov.forest.tree purpose := by
  rw [openProposal]
  cases govActionPurposeTag state.procedure.govAction with
  | none => rfl
  | some p =>
  simp only [ProposalForest.tree_modify, Option.some.injEq]
  by_cases h : purpose = p
  · simp [h]
  · simp [h, Ne.symm h]

theorem rootOf_openProposal : (gov.openProposal id state).rootOf purpose = gov.rootOf purpose := by
  rw [rootOf, tree_openProposal]
  split
  · rw [PTree.addProposal]
    split
    · rfl
    · split <;> rfl
  · rfl

/-- The open proposals before and after one is opened. -/
theorem purposeOf_openProposal (x : GovActionId) :
    purposeOf (gov.openProposal id state).proposals x =
      if x = id then govActionPurposeTag state.procedure.govAction
      else purposeOf gov.proposals x := by
  rw [purposeOf, openProposal, FinMap.lookup_insert_ite]
  split <;> rfl

theorem prevOf_openProposal (x : GovActionId) : prevOf (gov.openProposal id state).proposals x =
      if x = id then govActionPrevId state.procedure.govAction else prevOf gov.proposals x := by
  rw [prevOf, openProposal, FinMap.lookup_insert_ite]
  split <;> rfl

theorem purposeOf_of_closed (h : gov.proposals.lookup id = none) :
    purposeOf gov.proposals id = none := by
  rw [purposeOf, h]
  rfl

variable {purpose : GovPurpose}

theorem ne_of_purposeOf (h : gov.proposals.lookup id = none) {x : GovActionId}
    (hx : purposeOf gov.proposals x = some purpose) : x ≠ id := by
  rintro rfl
  rw [purposeOf_of_closed h] at hx
  cases hx

/-- What holds of the trees holds with one more proposal, if it holds of the tree that it joins. -/
theorem TreeProp.Kept.openProposal {P : TreeProp} (hP : P.Kept)
    (h : P.At gov purpose) (hclosed : gov.proposals.lookup id = none)
    (hadd : ∀ prev, govActionPurposeTag state.procedure.govAction = some purpose →
      prev id = govActionPrevId state.procedure.govAction →
      (∀ x, purposeOf gov.proposals x = some purpose → prevOf gov.proposals x = prev x) →
      P (gov.forest.tree purpose) (fun x => purposeOf gov.proposals x = some purpose) prev →
      P ((gov.forest.tree purpose).addProposal id (prev id))
        (fun x => purposeOf gov.proposals x = some purpose ∨ x = id) prev) :
    P.At (gov.openProposal id state) purpose := by
  rw [TreeProp.At, tree_openProposal]
  have hold : ∀ x, purposeOf gov.proposals x = some purpose →
      prevOf gov.proposals x = prevOf (gov.openProposal id state).proposals x := by
    intro x hx
    rw [prevOf_openProposal, if_neg (ne_of_purposeOf hclosed hx)]
  split
  · next htag =>
    have hself : prevOf (gov.openProposal id state).proposals id =
        govActionPrevId state.procedure.govAction := by rw [prevOf_openProposal, if_pos rfl]
    rw [← hself]
    refine hP.congr (hadd _ htag hself hold (hP.congr h (fun _ => Iff.rfl) hold)) (fun x => ?_)
      fun _ _ => rfl
    rw [purposeOf_openProposal]
    split
    · next heq => exact ⟨fun _ => htag, fun _ => .inr heq⟩
    · next hne => exact or_iff_left hne
  · next htag =>
    refine hP.congr h (fun x => ?_) hold
    rw [purposeOf_openProposal]
    split
    · next heq =>
      rw [heq, purposeOf_of_closed hclosed]
      exact ⟨fun hx => (by cases hx), fun hx => absurd hx htag⟩
    · exact Iff.rfl

end Dugite
