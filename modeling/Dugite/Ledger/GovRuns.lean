import Dugite.Ledger.Linked
import Dugite.Ledger.Plan

/-!
# Runs of governance

Between two boundaries a state takes the transactions of the blocks, and steps that leave
governance alone. A boundary applies the plan that was frozen at the one before, and freezes a new
one. `Tracked` is what every such run keeps: the links of the forest, that an id which no applied
transaction made occurs nowhere, and that no root is open.
-/

namespace Dugite

open GovernanceState SubStates PulsingSnapshot ConwayRules FinMap List

/-! ## Removals and enactments -/

/-- What a plan predicts, and the plan. -/
def SubStates.prospect (s : SubStates) :
    Option DRepPulsingState × EnactedGovTerms × ProtocolParameters :=
  (s.gov.drepPulsingState, s.standing)

theorem protocolParams_refund (pots : CertSubState × EpochSubState)
    (removed : List (GovActionId × ProposalState)) :
    (removed.foldl (fun pots e => refundProposalDeposit pots e.2) pots).2.protocolParams =
      pots.2.protocolParams := by
  induction removed generalizing pots with
  | nil => rfl
  | cons e removed ih =>
    rw [foldl_cons, ih, refundProposalDeposit]
    dsimp only
    split
    · rfl
    · split
      · rfl
      · split <;> rfl

namespace SubStates

variable (s : SubStates)

theorem prospect_refundAll (removed : List (GovActionId × ProposalState)) :
    (s.refundAll removed).prospect = s.prospect :=
  congrArg (fun params => (s.gov.drepPulsingState, s.enactedTerms, params))
    (protocolParams_refund (s.certs, s.epochs) removed)

theorem prospect_dropProposals (ids : List GovActionId) :
    (s.dropProposals ids).2.prospect = s.prospect :=
  prospect_refundAll { s with gov := (s.gov.removeWithDescendants ids).2 } _

theorem prospect_enactOne (acc : List (GovActionId × ProposalState) × SubStates)
    (id : GovActionId) : (enactOne acc id).2.prospect = acc.2.prospect := by
  rw [enactOne]
  split
  · exact prospect_refundAll _ _
  · rfl

theorem prospect_dropSiblings (e : GovActionId × ProposalState) :
    (s.dropSiblings e).prospect = s.prospect := by
  cases htag : govActionPurposeTag e.2.procedure.govAction with
  | none => rw [dropSiblings, htag]
  | some purpose =>
    rw [dropSiblings_of_tag htag]
    exact s.prospect_dropProposals _

/-- Removing proposals is no business of the terms. -/
theorem prospect_proposalsApplyEnactment (ratified expired : List GovActionId) :
    (s.proposalsApplyEnactment ratified expired).prospect = s.prospect :=
  proposalsApplyEnactment_induct (P := fun s' => s'.prospect = s.prospect) expired
    (fun ids h => (prospect_dropProposals _ ids).trans h)
    (fun id h => (prospect_enactOne _ id).trans h)
    (fun _ _ h => (prospect_dropSiblings _ _).trans h) (fun _ _ h => h) rfl

/-- Enacting an action leaves the proposals, the plan and the roots alone. -/
theorem enactGovAction_keeps (action : GovAction) :
    (s.enactGovAction action).gov.proposals = s.gov.proposals ∧
      (s.enactGovAction action).gov.forest = s.gov.forest ∧
      (s.enactGovAction action).gov.drepPulsingState = s.gov.drepPulsingState := by
  cases action with
  | parameterChange _ update _ =>
    rw [enactGovAction]
    split <;> exact ⟨rfl, rfl, rfl⟩
  | updateCommittee _ membersToRemove membersToAdd threshold =>
    obtain ⟨_, hcommittee⟩ := s.gov.updateCommittee_eq membersToRemove membersToAdd threshold
    rw [enactGovAction, hcommittee]
    exact ⟨rfl, rfl, rfl⟩
  | _ => exact ⟨rfl, rfl, rfl⟩

end SubStates

/-! ## Ids that occur nowhere -/

namespace PTree

variable {tree : PTree} {id x : GovActionId}

/-- A new proposal makes a node for itself and for what it names. -/
theorem lookup_graph_addProposal_of_ne {prev : Option GovActionId} (hne : x ≠ id)
    (hprev : prev ≠ some x) :
    (tree.addProposal id prev).graph.lookup x = tree.graph.lookup x := by
  rw [addProposal]
  split
  · rfl
  cases prev with
  | none => exact (lookup_insert_ite _ _ _ _).trans (if_neg hne)
  | some q =>
    have hq : x ≠ q := fun heq => hprev (heq ▸ rfl)
    rw [lookup_insert_ite, if_neg hq, lookup_insert_ite, if_neg hne]

theorem lookup_graph_promoteRoot_of_none (h : tree.graph.lookup x = none) :
    (tree.promoteRoot id).graph.lookup x = none := by
  rw [promoteRoot]
  cases tree.graph.lookup id with
  | none => exact h
  | some edges =>
  cases hx : ((sortedIds edges.children).foldl orphan (tree.graph.erase id)).lookup x with
  | none => rfl
  | some found =>
    obtain ⟨old, hold, -⟩ := children_foldl_orphan hx
    rw [lookup_erase_ite, h, ite_self] at hold
    cases hold

end PTree

variable {id x : GovActionId} {state : ProposalState} (s : SubStates) (stakeMap : FinMap Hash32 Nat)
  (pulser : DRepPulsingState)

theorem Without.prevOf_ne {before after : Proposals} {gone : GovActionId → Prop}
    (h : Without before after gone) (hid : prevOf before id ≠ some x) :
    prevOf after id ≠ some x := by
  by_cases hgone : gone id
  · rw [prevOf, h.goes hgone]
    exact fun heq => by cases heq
  · rw [h.prevOf_eq hgone]
    exact hid

/-- An action can only name an id that the state knows. -/
theorem ConwayRules.prev_ne_of_unseen {gov : GovernanceState} {action : GovAction}
    (hvalid : prevIsValid gov action) (hx : Unseen gov x) :
    govActionPrevId action ≠ some x := by
  intro hprev
  rw [prevIsValid, hprev] at hvalid
  rw [Bool.or_eq_true, decide_eq_true_iff, hx.closed] at hvalid
  rcases hvalid with hroot | hopen
  · cases htag : govActionPurposeTag action with
    | none => cases action <;> cases htag <;> cases hprev
    | some purpose =>
      rw [gov.enacted.rootFor_of_tag htag] at hroot
      exact hx.notEnacted purpose hroot
  · cases hopen

namespace Unseen

variable {gov gov' : GovernanceState} {s : SubStates} {x : GovActionId}

theorem congr (h : Unseen gov x) (hproposals : gov'.proposals = gov.proposals)
    (hforest : gov'.forest = gov.forest) (henacted : gov'.enacted = gov.enacted) :
    Unseen gov' x where
  closed := by rw [hproposals]; exact h.closed
  notRoot purpose := by rw [rootOf, hforest]; exact h.notRoot purpose
  unnamed y := by rw [hproposals]; exact h.unnamed y
  notEnacted purpose := by rw [henacted]; exact h.notEnacted purpose
  noNode purpose := by rw [hforest]; exact h.noNode purpose

theorem openProposal (h : Unseen gov x) (hne : x ≠ id)
    (hprev : govActionPrevId state.procedure.govAction ≠ some x) :
    Unseen (gov.openProposal id state) x where
  closed := (lookup_insert_ite _ _ _ _).trans ((if_neg hne).trans h.closed)
  notRoot purpose := by
    rw [rootOf_openProposal]
    exact h.notRoot purpose
  unnamed y := by
    rw [prevOf_openProposal]
    split
    · exact hprev
    · exact h.unnamed y
  notEnacted := h.notEnacted
  noNode purpose := by
    rw [tree_openProposal]
    split
    · rw [PTree.lookup_graph_addProposal_of_ne hne hprev]
      exact h.noNode purpose
    · exact h.noNode purpose

theorem noNode_kept (x : GovActionId) :
    TreeProp.Kept fun tree _ _ => tree.graph.lookup x = none where
  congr h _ _ := h
  removeNode {tree _ _} h id := by
    rw [← Option.not_isSome_iff_eq_none] at h ⊢
    exact fun hsome => h (isSome_of_removeNode hsome).1

theorem dropProposals (h : Unseen s.gov x) (ids : List GovActionId) :
    Unseen (s.dropProposals ids).2.gov x where
  closed := (removes_dropProposals s ids).without.eq_none h.closed
  notRoot purpose := by
    rw [rootOf_dropProposals]
    exact h.notRoot purpose
  unnamed y := (removes_dropProposals s ids).without.prevOf_ne (h.unnamed y)
  notEnacted := h.notEnacted
  noNode purpose := (noNode_kept x).dropProposals (h.noNode purpose) ids

theorem enactOne {acc : List (GovActionId × ProposalState) × SubStates} (h : Unseen acc.2.gov x)
    (id : GovActionId) : Unseen (enactOne acc id).2.gov x where
  closed := (without_enactOne acc id).eq_none h.closed
  notRoot purpose := by
    rw [rootOf, (root_kept _).enactOne rfl id]
    exact h.notRoot purpose
  unnamed y := (without_enactOne acc id).prevOf_ne (h.unnamed y)
  notEnacted purpose := by
    have hterms := congrArg (·.2.1.prevGovActionIds) (prospect_enactOne acc id)
    have henacted : (SubStates.enactOne acc id).2.gov.enacted = acc.2.gov.enacted := hterms
    rw [henacted]
    exact h.notEnacted purpose
  noNode purpose := (noNode_kept x).enactOne (h.noNode purpose) id

theorem dropSiblings (h : Unseen s.gov x) {e : GovActionId × ProposalState} (hne : e.1 ≠ x) :
    Unseen (s.dropSiblings e).gov x := by
  cases htag : govActionPurposeTag e.2.procedure.govAction with
  | none =>
    rw [SubStates.dropSiblings, htag]
    exact h
  | some purpose =>
  rw [dropSiblings_of_tag htag]
  have hdrop := h.dropProposals (siblingsOf s e.1 purpose)
  refine ⟨{ hdrop with notRoot := fun other => ?_ }, hdrop.notEnacted, fun other => ?_⟩
  · rw [rootOf, ProposalForest.tree_modify]
    split
    · rw [PTree.promoteRoot]
      split <;> exact fun heq => hne (Option.some.inj heq)
    · exact hdrop.notRoot other
  · rw [ProposalForest.tree_modify]
    split
    · exact PTree.lookup_graph_promoteRoot_of_none (hdrop.noNode purpose)
    · exact hdrop.noNode other

theorem proposalsApplyEnactment (h : Unseen s.gov x) {ratified : List GovActionId}
    (hx : x ∉ ratified) (expired : List GovActionId) :
    Unseen (s.proposalsApplyEnactment ratified expired).gov x :=
  proposalsApplyEnactment_induct (P := fun s => Unseen s.gov x) expired
    (fun ids h => h.dropProposals ids) (fun id h => h.enactOne id)
    (fun hmem _ h => h.dropSiblings fun heq => hx (heq ▸ hmem))
    (fun _ _ h => h.congr rfl rfl rfl) h

end Unseen

/-! ## What a freeze plans -/

/-- A pass before its first candidate. -/
def RatifyPass.start (s : SubStates) (snapshot : PulsingSnapshot) : RatifyPass :=
  ⟨s, snapshot.committee, snapshot.enacted, snapshot.treasury, [], [], false⟩

/-- What a plan says of the pass that made it, which started at a state of the given standing. -/
structure PlanOf (snapshot : PulsingSnapshot) (standing : EnactedGovTerms × ProtocolParameters)
    (plan : PulsedRatifyState) (pass : RatifyPass) : Prop where
  run : ∃ env copy, SubStates.standing copy = standing ∧
    pass = snapshot.candidates.foldl (RatifyPass.step env) (.start copy snapshot)
  enacted : plan.enacted = pass.ratified
  expired : plan.expired = pass.expired
  standing : (plan.enactState, plan.curPparams) =
    { pass.state with gov := { pass.state.gov with enacted := pass.roots } }.standing

/-- Restoring the forest changes nothing else. -/
theorem prospect_withForest : s.withForest.prospect = s.prospect := by
  rw [withForest]
  split <;> rfl

theorem planOf_ratifyProposals (epoch : Nat) {s : SubStates}
    {pulser : DRepPulsingState} (h : s.gov.drepPulsingState = some pulser)
    {standing : EnactedGovTerms × ProtocolParameters} (hs : s.standing = standing) :
    PlanOf pulser.snapshot standing (s.ratifyProposals stakeMap epoch).1
      (s.withForest.ratifyPass stakeMap epoch) := by
  obtain ⟨hpulser, hstanding⟩ := Prod.mk.inj (prospect_withForest s)
  refine ⟨⟨s.withForest.ratifyEnv stakeMap epoch pulser.snapshot, s.withForest,
    hstanding.trans hs, ?_⟩, rfl, rfl, ?_⟩
  · rw [ratifyPass, hpulser, h]
    rfl
  · exact congrArg (·.2) (SubStates.prospect_proposalsApplyEnactment _ _ _)

/-- A frozen state is as before, with a snapshot of itself and a plan. -/
theorem freeze_eq (epoch : Nat) (s : SubStates) :
    ∃ plan, s.freeze stakeMap epoch = { s with gov := { s.gov with
        drepPulsingState := some ⟨s.buildPulsingSnapshot stakeMap epoch, plan⟩ } } ∧
      ∃ pass, PlanOf (s.buildPulsingSnapshot stakeMap epoch) s.standing plan pass := by
  refine ⟨_, rfl, ?_⟩
  exact ⟨_, @planOf_ratifyProposals stakeMap epoch _
    ⟨s.buildPulsingSnapshot stakeMap epoch, _⟩ rfl _ rfl⟩

namespace PlanOf

variable {snapshot : PulsingSnapshot} {standing : EnactedGovTerms × ProtocolParameters}
  {plan : PulsedRatifyState} {pass : RatifyPass} (h : PlanOf snapshot standing plan pass)
include h

/-- Each candidate is visited once. -/
theorem planned : Planned snapshot (snapshot.candidates.map (·.1)) pass := by
  obtain ⟨env, copy, -, rfl⟩ := h.run
  have hstart : Planned snapshot [] (.start copy snapshot) :=
    ⟨fun id hid => (by cases hid), nodup_nil, fun purpose => rfl, fun purpose => trivial⟩
  exact Planned.run env snapshot.candidates hstart
    (fun e he => lookup_of_mem_candidates he) nodup_candidates

theorem isSome_of_mem
    (hid : id ∈ plan.enacted ++ plan.expired) : (snapshot.proposals.lookup id).isSome := by
  rw [h.enacted, h.expired] at hid
  obtain ⟨e, he, rfl⟩ := mem_map.1 (h.planned.listed id hid)
  rw [lookup_of_mem_candidates he]
  rfl

/-- The plan on another state of the same standing. -/
theorem replays {s : SubStates} (hs : s.standing = standing) : Replays snapshot s pass := by
  obtain ⟨env, copy, hcopy, rfl⟩ := h.run
  refine Replays.run ⟨?_, rfl⟩ env fun e he => lookup_of_mem_candidates he
  exact hs.trans hcopy.symm

end PlanOf

/-! ## What runs keep -/

/-- A frozen plan: its ids are known, and its roots are not open. -/
structure Frozen (known : GovActionId → Prop) (gov : GovernanceState) (pulser : DRepPulsingState) :
    Prop where
  listed : ∀ id, (pulser.snapshot.proposals.lookup id).isSome → known id
  rootKnown : ∀ purpose id, pulser.snapshot.enacted.get purpose = some id → known id
  rootClosed : ∀ purpose id, pulser.snapshot.enacted.get purpose = some id →
    gov.proposals.lookup id = none
  planned : ∀ id ∈ pulser.ratifyState.enacted, (pulser.snapshot.proposals.lookup id).isSome

/-- The invariant of a run that has met the ids of `known`. -/
structure Tracked (known : GovActionId → Prop) (gov : GovernanceState) : Prop where
  linked : Linked gov
  unseen : ∀ {id}, ¬ known id → Unseen gov id
  rootClosed : ∀ purpose id, gov.enacted.get purpose = some id → gov.proposals.lookup id = none
  frozen : ∀ {pulser}, gov.drepPulsingState = some pulser → Frozen known gov pulser

theorem Linked.congr {gov gov' : GovernanceState} (h : Linked gov)
    (hproposals : gov'.proposals = gov.proposals) (hforest : gov'.forest = gov.forest) :
    Linked gov' := by
  intro purpose
  rw [hproposals, hforest]
  exact h purpose

namespace Tracked

variable {known known' : GovActionId → Prop} {gov gov' : GovernanceState} {s s' : SubStates}

theorem empty (hproposals : gov.proposals = ∅) (hforest : gov.forest = {})
    (henacted : gov.enacted = {}) (hpulser : gov.drepPulsingState = none) : Tracked known gov := by
  have hclosed : ∀ id, gov.proposals.lookup id = none := by
    intro id
    rw [hproposals]
    rfl
  have hnoRoot : ∀ purpose id, gov.enacted.get purpose ≠ some id := by
    intro purpose id
    rw [henacted]
    cases purpose <;> exact fun h => by cases h
  refine ⟨.empty hforest, fun {id} _ => ⟨⟨hclosed id, fun purpose => ?_, fun x => ?_⟩,
    fun purpose => hnoRoot purpose id, fun purpose => ?_⟩, fun purpose id _ => hclosed id,
    fun hp => ?_⟩
  · rw [rootOf, hforest]
    cases purpose <;> exact fun h => by cases h
  · rw [prevOf, hclosed x]
    exact fun h => by cases h
  · rw [hforest]
    cases purpose <;> rfl
  · rw [hpulser] at hp
    cases hp

section
variable (h : Tracked known gov)
include h

theorem mono (hknown : ∀ id, known id → known' id) : Tracked known' gov where
  linked := h.linked
  unseen hid := h.unseen fun hk => hid (hknown _ hk)
  rootClosed := h.rootClosed
  frozen hp :=
    have hf := h.frozen hp
    ⟨fun id hid => hknown id (hf.listed id hid),
      fun purpose id hid => hknown id (hf.rootKnown purpose id hid), hf.rootClosed, hf.planned⟩

theorem congr (hproposals : gov'.proposals = gov.proposals)
    (hforest : gov'.forest = gov.forest) (henacted : gov'.enacted = gov.enacted)
    (hpulser : gov'.drepPulsingState = gov.drepPulsingState) : Tracked known gov' where
  linked := h.linked.congr hproposals hforest
  unseen hid := (h.unseen hid).congr hproposals hforest henacted
  rootClosed purpose id hid := by
    rw [henacted] at hid
    rw [hproposals]
    exact h.rootClosed purpose id hid
  frozen hp := by
    rw [hpulser] at hp
    have hf := h.frozen hp
    refine { hf with rootClosed := fun purpose id hid => ?_ }
    rw [hproposals]
    exact hf.rootClosed purpose id hid

theorem known_of_isSome (hid : (gov.proposals.lookup id).isSome) : known id := by
  by_contra hunknown
  rw [(h.unseen hunknown).closed] at hid
  cases hid

theorem openProposal (hnew : ¬ known id) (hvalid : prevIsValid gov state.procedure.govAction) :
    Tracked (fun x => known x ∨ x = id) (gov.openProposal id state) := by
  have hunseen := h.unseen hnew
  -- what is known and closed is not the new one
  have hclosed : ∀ {x}, known x → gov.proposals.lookup x = none →
      (gov.openProposal id state).proposals.lookup x = none := by
    intro x hx hnone
    have hne : x ≠ id := fun heq => hnew (heq ▸ hx)
    exact (lookup_insert_ite _ _ _ _).trans ((if_neg hne).trans hnone)
  refine ⟨h.linked.openProposal hunseen (prev_ne_of_unseen hvalid hunseen),
    fun {x} hx => ?_, fun purpose x hx => ?_, fun hp => ?_⟩
  · rw [not_or] at hx
    have hold := h.unseen hx.1
    exact hold.openProposal hx.2 (prev_ne_of_unseen hvalid hold)
  · have hknown : known x := by
      by_contra hunknown
      exact (h.unseen hunknown).notEnacted purpose hx
    exact hclosed hknown (h.rootClosed purpose x hx)
  · have hf := h.frozen hp
    exact ⟨fun x hx => .inl (hf.listed x hx), fun purpose x hx => .inl (hf.rootKnown purpose x hx),
      fun purpose x hx => hclosed (hf.rootKnown purpose x hx) (hf.rootClosed purpose x hx),
      hf.planned⟩

end

/-- A freeze plans over what is open. -/
theorem freeze (h : Tracked known s.gov) (stakeMap : FinMap Hash32 Nat) (epoch : Nat) :
    Tracked known (s.freeze stakeMap epoch).gov := by
  obtain ⟨plan, heq, pass, hplan⟩ := freeze_eq stakeMap epoch s
  rw [heq]
  refine ⟨h.linked.congr rfl rfl, fun hid => (h.unseen hid).congr rfl rfl rfl, h.rootClosed,
    fun hp => ?_⟩
  cases hp
  refine ⟨fun id hid => h.known_of_isSome hid, fun purpose id hid => ?_, h.rootClosed,
    fun id hid => hplan.isSome_of_mem (mem_append_left _ hid)⟩
  by_contra hunknown
  exact (h.unseen hunknown).notEnacted purpose hid

end Tracked

/-- A root after a plan is a root from before, or planned. -/
theorem get_enactPlanned {frozen : Option PulsingSnapshot} {purpose : GovPurpose}
    (ids : List GovActionId) :
    ∀ {acc : SubStates × EnactedGovRoots},
      (ids.foldl (enactPlanned frozen) acc).2.get purpose = some id →
      acc.2.get purpose = some id ∨ id ∈ ids := by
  induction ids with
  | nil => exact fun h => .inl h
  | cons k ids ih =>
    intro acc h
    rcases ih h with hroot | hmem
    · rw [enactPlanned] at hroot
      split at hroot
      · rw [EnactedGovRoots.get_update] at hroot
        split at hroot
        · exact .inr (Option.some.inj hroot ▸ mem_cons_self)
        · exact .inl hroot
      · exact .inl hroot
    · exact .inr (mem_cons_of_mem k hmem)

/-- The state that a boundary takes the proposals out of. -/
def SubStates.enactPlan (s : SubStates) (pulser : DRepPulsingState) : SubStates :=
  let (t, roots) := pulser.ratifyState.enacted.foldl (enactPlanned (some pulser.snapshot))
    (s, pulser.snapshot.enacted)
  { t with gov := { t.gov with enacted := roots } }

def SubStates.applyPlan (s : SubStates) (pulser : DRepPulsingState) : SubStates :=
  (s.enactPlan pulser).proposalsApplyEnactment pulser.ratifyState.enacted pulser.ratifyState.expired

theorem ratifyAtBoundary_eq {s : SubStates} {pulser : DRepPulsingState}
    (h : s.gov.drepPulsingState = some pulser) :
    s.ratifyAtBoundary = { s.applyPlan pulser with
      gov := { (s.applyPlan pulser).gov with
        lastRatifyDelayed := pulser.ratifyState.delayed } } := by
  rw [ratifyAtBoundary, h]
  dsimp only
  rw [applyRatifyDecision, h]
  rfl

theorem prospect_applyPlan : (s.applyPlan pulser).prospect = (s.enactPlan pulser).prospect :=
  prospect_proposalsApplyEnactment _ _ _

/-- A plan is enacted on the live proposals and forest. -/
theorem enactPlan_keeps : (s.enactPlan pulser).gov.proposals = s.gov.proposals ∧
      (s.enactPlan pulser).gov.forest = s.gov.forest ∧
      (s.enactPlan pulser).gov.drepPulsingState = s.gov.drepPulsingState := by
  refine foldlRecOn (motive := fun acc : SubStates × EnactedGovRoots =>
    acc.1.gov.proposals = s.gov.proposals ∧ acc.1.gov.forest = s.gov.forest ∧
      acc.1.gov.drepPulsingState = s.gov.drepPulsingState) _ _ ⟨rfl, rfl, rfl⟩ fun acc h id _ => ?_
  rw [enactPlanned]
  split
  · simpa only [acc.1.enactGovAction_keeps] using h
  · exact h

/-- A boundary keeps track. -/
theorem Tracked.ratifyAtBoundary {known : GovActionId → Prop} {s : SubStates}
    (h : Tracked known s.gov) : Tracked known s.ratifyAtBoundary.gov := by
  cases hp : s.gov.drepPulsingState with
  | none =>
    rw [SubStates.ratifyAtBoundary, hp]
    exact h.congr rfl rfl rfl rfl
  | some pulser =>
  rw [ratifyAtBoundary_eq hp]
  suffices happly : Tracked known (s.applyPlan pulser).gov from happly.congr rfl rfl rfl rfl
  have hf := h.frozen hp
  have hplanned : ∀ id ∈ pulser.ratifyState.enacted, known id := fun id hid =>
    hf.listed id (hf.planned id hid)
  obtain ⟨hproposals, hforest, hpulser⟩ := enactPlan_keeps s pulser
  have hroots : ∀ {purpose id}, (s.enactPlan pulser).gov.enacted.get purpose = some id →
      pulser.snapshot.enacted.get purpose = some id ∨ id ∈ pulser.ratifyState.enacted :=
    fun hid => get_enactPlanned _ hid
  have hterms := prospect_applyPlan s pulser
  have henacted : (s.applyPlan pulser).gov.enacted = (s.enactPlan pulser).gov.enacted :=
    congrArg (·.2.1.prevGovActionIds) hterms
  have hplan : (s.applyPlan pulser).gov.drepPulsingState = some pulser :=
    (congrArg (·.1) hterms).trans (hpulser.trans hp)
  have hclosed : ∀ {id}, s.gov.proposals.lookup id = none →
      (s.applyPlan pulser).gov.proposals.lookup id = none := by
    intro id hid
    rw [← hproposals] at hid
    exact proposalsApplyEnactment_induct (P := fun s => s.gov.proposals.lookup id = none) _
      (fun ids h => (removes_dropProposals _ ids).without.eq_none h)
      (fun id h => (without_enactOne _ id).eq_none h)
      (fun _ _ h => lookup_dropSiblings_of_none h) (fun _ _ h => h) hid
  have hlinked : Linked (s.enactPlan pulser).gov := h.linked.congr hproposals hforest
  refine ⟨hlinked.proposalsApplyEnactment _ _, fun {id} hid => ?_, fun purpose id hid => ?_,
    fun hp' => ?_⟩
  · have hold := h.unseen hid
    have hnew : Unseen { s.gov with enacted := (s.enactPlan pulser).gov.enacted } id := by
      refine ⟨{ hold with }, fun purpose hroot => hid ?_, hold.noNode⟩
      rcases hroots hroot with hroot | hmem
      · exact hf.rootKnown purpose id hroot
      · exact hplanned id hmem
    have henact : Unseen (s.enactPlan pulser).gov id := hnew.congr hproposals hforest rfl
    exact henact.proposalsApplyEnactment (fun hmem => hid (hplanned id hmem)) _
  · rw [henacted] at hid
    rcases hroots hid with hroot | hmem
    · exact hclosed (hf.rootClosed purpose id hroot)
    · exact lookup_proposalsApplyEnactment_of_mem _ _ hmem
  · rw [hplan] at hp'
    cases hp'
    exact { hf with rootClosed := fun purpose id hid => hclosed (hf.rootClosed purpose id hid) }

end Dugite
