import Dugite.Ledger.Ratify
import Dugite.Lib.Runs

/-!
# What a plan is

The pass over the frozen proposals visits each of them once. `Planned` says what it has done after
some of them: the actions it enacts continue, purpose by purpose, the frozen roots, and nothing is
both enacted and expired. `Replays` says that enacting the same ids on another state, which agrees
on what governance is, comes to the same terms and roots.
-/

namespace Dugite

open List SubStates RatifyPass GovActionId

namespace EnactedGovRoots

theorem get_update (roots : EnactedGovRoots) (id : GovActionId) (action : GovAction)
    (purpose : GovPurpose) :
    (roots.update id action).get purpose =
      if govActionPurposeTag action = some purpose then some id else roots.get purpose := by
  cases action <;> cases purpose <;> rfl

end EnactedGovRoots

/-- The actions of a list that have a purpose, in order. -/
def lineOf (proposals : Proposals) (ids : List GovActionId) (purpose : GovPurpose) :
    List GovActionId :=
  ids.filter fun id => purposeOf proposals id = some purpose

theorem mem_lineOf {proposals : Proposals} {ids : List GovActionId} {id : GovActionId}
    {purpose : GovPurpose} :
    id ∈ lineOf proposals ids purpose ↔ id ∈ ids ∧ purposeOf proposals id = some purpose := by
  rw [lineOf, mem_filter, decide_eq_true_iff]

theorem lineOf_concat (proposals : Proposals) (ids : List GovActionId) (id : GovActionId)
    (purpose : GovPurpose) :
    lineOf proposals (ids ++ [id]) purpose =
      if purposeOf proposals id = some purpose then lineOf proposals ids purpose ++ [id]
      else lineOf proposals ids purpose := by
  rw [lineOf, filter_append, lineOf]
  by_cases h : purposeOf proposals id = some purpose <;> simp [h]

variable {state : ProposalState} {id : GovActionId} {proposals : Proposals}

theorem purposeOf_of_lookup (h : proposals.lookup id = some state) :
    purposeOf proposals id = govActionPurposeTag state.procedure.govAction := by
  rw [purposeOf, h]
  rfl

theorem prevOf_of_lookup (h : proposals.lookup id = some state) :
    prevOf proposals id = govActionPrevId state.procedure.govAction := by
  rw [prevOf, h]
  rfl

/-! ## The candidates -/

variable {e : GovActionId × ProposalState} {s s' : SubStates}

namespace PulsingSnapshot

variable {snapshot : PulsingSnapshot}

theorem lookup_of_mem_candidates
    (h : e ∈ snapshot.candidates) : snapshot.proposals.lookup e.1 = some e.2 := by
  rw [candidates, mem_insertionSort] at h
  exact (Listing.mem_entries rank_injective).1 h

theorem nodup_candidates : (snapshot.candidates.map (·.1)).Nodup := by
  have hperm := (perm_insertionSort (fun a b : GovActionId × ProposalState =>
    toLex (govActionPriority a.2.procedure.govAction, a.2.submissionIndex) ≤
      toLex (govActionPriority b.2.procedure.govAction, b.2.submissionIndex))
    (Listing.entries rank rank_injective snapshot.proposals)).map (·.1)
  exact hperm.nodup_iff.2 (Listing.nodup_keys_entries rank_injective)

end PulsingSnapshot

/-! ## The pass -/

/-- What a pass has done after the candidates of `done`. -/
structure Planned (snapshot : PulsingSnapshot) (done : List GovActionId) (pass : RatifyPass) :
    Prop where
  listed : ∀ id ∈ pass.ratified ++ pass.expired, id ∈ done
  nodup : (pass.ratified ++ pass.expired).Nodup
  roots : ∀ purpose, pass.roots.get purpose =
    Line.latest (snapshot.enacted.get purpose) (lineOf snapshot.proposals pass.ratified purpose)
  /-- Each enacted action continues the last one of its purpose. -/
  inTurn : ∀ purpose, Line.Follows (prevOf snapshot.proposals) (snapshot.enacted.get purpose)
    (lineOf snapshot.proposals pass.ratified purpose)

namespace Planned

variable {snapshot : PulsingSnapshot} {done : List GovActionId} {pass : RatifyPass}

theorem enact (h : Planned snapshot done pass)
    (hstate : snapshot.proposals.lookup id = some state) (hnew : id ∉ done)
    (hprev : prevActionAsExpected pass.roots state.procedure.govAction) :
    Planned snapshot (done ++ [id]) (pass.enact id state.procedure.govAction) := by
  have hpurpose := purposeOf_of_lookup hstate
  refine ⟨?_, ?_, fun purpose => ?_, fun purpose => ?_⟩
  · intro x hx
    rw [RatifyPass.enact, append_assoc, mem_append, mem_append, mem_singleton] at hx
    rw [mem_append, mem_singleton]
    rcases hx with hx | rfl | hx
    · exact .inl (h.listed x (mem_append_left _ hx))
    · exact .inr rfl
    · exact .inl (h.listed x (mem_append_right _ hx))
  · rw [RatifyPass.enact, append_assoc]
    refine nodup_middle.2 (nodup_cons.2 ⟨fun hx => hnew (h.listed id hx), h.nodup⟩)
  · rw [RatifyPass.enact, EnactedGovRoots.get_update, lineOf_concat, hpurpose]
    split
    · rw [Line.latest_concat]
    · exact h.roots purpose
  · rw [RatifyPass.enact, lineOf_concat, hpurpose]
    split
    · next htag =>
      refine (h.inTurn purpose).concat ?_
      rw [prevOf_of_lookup hstate, ← h.roots, ← pass.roots.rootFor_of_tag htag]
      exact of_decide_eq_true hprev
    · exact h.inTurn purpose

theorem step (h : Planned snapshot done pass) (env : RatifyEnv)
    (hstate : snapshot.proposals.lookup e.1 = some e.2) (hnew : e.1 ∉ done) :
    Planned snapshot (done ++ [e.1]) (pass.step env e) := by
  rw [RatifyPass.step]
  split
  · next haccepts =>
    rw [accepts, Bool.and_eq_true, Bool.and_eq_true] at haccepts
    exact h.enact hstate hnew haccepts.1.1
  split
  · refine ⟨?_, ?_, h.roots, h.inTurn⟩
    · intro x hx
      rw [← append_assoc, mem_append] at hx
      rw [mem_append]
      exact hx.imp_left (h.listed x)
    · rw [← append_assoc, nodup_append]
      refine ⟨h.nodup, nodup_singleton _, fun x hx y hy heq => hnew ?_⟩
      rw [← mem_singleton.1 hy, ← heq]
      exact h.listed x hx
  · exact { h with listed := fun x hx => mem_append_left _ (h.listed x hx) }

/-- The whole pass. -/
theorem run (env : RatifyEnv) (candidates : List (GovActionId × ProposalState)) :
    ∀ {done : List GovActionId} {pass : RatifyPass}, Planned snapshot done pass →
      (∀ e ∈ candidates, snapshot.proposals.lookup e.1 = some e.2) →
      (done ++ candidates.map (·.1)).Nodup →
      Planned snapshot (done ++ candidates.map (·.1))
        (candidates.foldl (RatifyPass.step env) pass) := by
  induction candidates with
  | nil =>
    intro done pass h _ _
    rw [map_nil, append_nil]
    exact h
  | cons e candidates ih =>
    intro done pass h hall hnodup
    rw [forall_mem_cons] at hall
    rw [map_cons, append_cons] at hnodup ⊢
    have hnew : e.1 ∉ done := by
      intro hmem
      have hfront := (nodup_append.1 hnodup).1
      exact (nodup_append.1 hfront).2.2 _ hmem _ (mem_singleton_self _) rfl
    exact ih (h.step env hall.1 hnew) hall.2 hnodup

end Planned

/-! ## What governance is -/

/-- What a plan predicts of a state: the committee, its threshold, the constitution, the roots and
the protocol parameters. -/
def SubStates.standing (s : SubStates) : EnactedGovTerms × ProtocolParameters :=
  (s.enactedTerms, s.epochs.protocolParams)

namespace GovernanceState

theorem foldl_removeMember (members : List Credential) (gov : GovernanceState) :
    ∃ scripts, members.foldl removeMember gov = { gov with
      committeeExpiration :=
        members.foldl (fun m c => m.erase c.toTypedHash32) gov.committeeExpiration
      scriptCommitteeCredentials := scripts } := by
  induction members generalizing gov with
  | nil => exact ⟨_, rfl⟩
  | cons c members ih => exact ih (gov.removeMember c)

theorem foldl_addMember (members : List (Credential × Nat)) (gov : GovernanceState) :
    ∃ scripts, members.foldl addMember gov = { gov with
      committeeExpiration :=
        members.foldl (fun m e => m.insert e.1.toTypedHash32 e.2) gov.committeeExpiration
      scriptCommitteeCredentials := scripts } := by
  induction members generalizing gov with
  | nil => exact ⟨_, rfl⟩
  | cons e members ih => exact ih (gov.addMember e)

/-- What a new committee changes. -/
theorem updateCommittee_eq (gov : GovernanceState) (membersToRemove : List Credential)
    (membersToAdd : SortedMap Credential Nat) (threshold : Rational) :
    ∃ scripts, gov.updateCommittee membersToRemove membersToAdd threshold = { gov with
      committeeExpiration := membersToAdd.entries.foldl
        (fun m e => m.insert e.1.toTypedHash32 e.2)
        (membersToRemove.foldl (fun m c => m.erase c.toTypedHash32) gov.committeeExpiration)
      scriptCommitteeCredentials := scripts
      committeeThreshold := some threshold
      noConfidence := false } := by
  obtain ⟨scripts, hremove⟩ := foldl_removeMember membersToRemove gov
  obtain ⟨scripts', hadd⟩ :=
    foldl_addMember membersToAdd.entries (membersToRemove.foldl removeMember gov)
  rw [hremove] at hadd
  exact ⟨scripts', by rw [updateCommittee, hremove, hadd]⟩

end GovernanceState

theorem SubStates.standing_eq (hcommittee : s'.gov.committeeExpiration = s.gov.committeeExpiration)
    (hthreshold : s'.gov.committeeThreshold = s.gov.committeeThreshold)
    (hconstitution : s'.gov.constitution = s.gov.constitution)
    (henacted : s'.gov.enacted = s.gov.enacted)
    (hparams : s'.epochs.protocolParams = s.epochs.protocolParams) : s'.standing = s.standing := by
  rw [standing, standing, enactedTerms, enactedTerms, hcommittee, hthreshold, hconstitution,
    henacted, hparams]

/-- What an action makes of the standing depends on the standing alone. -/
theorem standing_enactGovAction (h : s'.standing = s.standing) (action : GovAction) :
    (s'.enactGovAction action).standing = (s.enactGovAction action).standing := by
  obtain ⟨hterms, hparams⟩ := Prod.mk.inj h
  obtain ⟨hcommittee, hthreshold, hconstitution, henacted⟩ := EnactedGovTerms.mk.inj hterms
  cases action with
  | parameterChange _ update _ =>
    rw [enactGovAction, enactGovAction, hparams]
    cases s.epochs.protocolParams.applyUpdate update with
    | ok params => exact standing_eq hcommittee hthreshold hconstitution henacted rfl
    | error e => exact h
  | hardForkInitiation _ version =>
    refine standing_eq hcommittee hthreshold hconstitution henacted ?_
    rw [enactGovAction, enactGovAction, hparams]
  | treasuryWithdrawals withdrawals _ =>
    exact standing_eq hcommittee hthreshold hconstitution henacted hparams
  | noConfidence _ => exact standing_eq rfl rfl hconstitution henacted hparams
  | updateCommittee _ membersToRemove membersToAdd threshold =>
    obtain ⟨_, hleft⟩ := s'.gov.updateCommittee_eq membersToRemove membersToAdd threshold
    obtain ⟨_, hright⟩ := s.gov.updateCommittee_eq membersToRemove membersToAdd threshold
    rw [enactGovAction, enactGovAction, hleft, hright]
    refine standing_eq ?_ rfl hconstitution henacted hparams
    rw [hcommittee]
  | newConstitution _ constitution =>
    exact standing_eq hcommittee hthreshold rfl henacted hparams
  | infoAction => exact h

/-! ## The same ids on another state -/

/-- Enacting what a pass has enacted on the state `s'` comes to the same standing and roots. -/
structure Replays (snapshot : PulsingSnapshot) (s' : SubStates) (pass : RatifyPass) : Prop where
  standing : (pass.ratified.foldl (enactPlanned (some snapshot))
    (s', snapshot.enacted)).1.standing = pass.state.standing
  roots : (pass.ratified.foldl (enactPlanned (some snapshot))
    (s', snapshot.enacted)).2 = pass.roots

namespace Replays

variable {snapshot : PulsingSnapshot} {s' : SubStates} {pass : RatifyPass}

theorem step (h : Replays snapshot s' pass) (env : RatifyEnv)
    (hstate : snapshot.proposals.lookup e.1 = some e.2) :
    Replays snapshot s' (pass.step env e) := by
  have hplanned : ∀ acc, enactPlanned (some snapshot) acc e.1 =
      (acc.1.enactGovAction e.2.procedure.govAction, acc.2.update e.1 e.2.procedure.govAction) := by
    intro acc
    rw [enactPlanned, Option.bind_some, hstate]
    rfl
  rw [RatifyPass.step]
  split
  · refine ⟨?_, ?_⟩
    · rw [enact, foldl_concat, hplanned]
      exact standing_enactGovAction h.standing e.2.procedure.govAction
    · rw [enact, foldl_concat, hplanned, h.roots]
  · split
    · exact { h with }
    · exact h

theorem run (h : Replays snapshot s' pass) (env : RatifyEnv)
    {candidates : List (GovActionId × ProposalState)}
    (hall : ∀ e ∈ candidates, snapshot.proposals.lookup e.1 = some e.2) :
    Replays snapshot s' (candidates.foldl (RatifyPass.step env) pass) :=
  foldlRecOn (motive := Replays snapshot s') _ _ h fun _ hp e he => hp.step env (hall e he)

end Replays

end Dugite
