import Dugite.Ledger.ConwayTx
import Dugite.Ledger.Forest

/-!
# Applying a ratification to the proposals

`proposalsApplyEnactment` takes the actions that a boundary enacts and those that expire out of the
open proposals, with what depends on them, and refunds the deposits. It runs in three loops: expired
proposals go with their descendants; enacted proposals go one by one; then, for each of them, the
children of the root of its purpose go with their descendants and it becomes the root.

`Removes` says what any of these steps does to the proposals and the pots: some proposals go, each
is refunded once, and nothing else of the two changes.
-/

namespace Dugite

open List SubStates GovernanceState

abbrev Proposals := FinMap GovActionId ProposalState

/-- The purpose of an open proposal. -/
def purposeOf (proposals : Proposals) (id : GovActionId) : Option GovPurpose :=
  (proposals.lookup id).bind fun state => govActionPurposeTag state.procedure.govAction

/-- The action that an open proposal continues. -/
def prevOf (proposals : Proposals) (id : GovActionId) : Option GovActionId :=
  (proposals.lookup id).bind fun state => govActionPrevId state.procedure.govAction

/-- `refund_proposal_deposit`: to the return account, or to the treasury when that is not
registered. A malformed return address loses the deposit. -/
def refundProposalDeposit (pots : CertSubState × EpochSubState) (proposal : ProposalState) :
    CertSubState × EpochSubState :=
  let deposit := proposal.procedure.deposit
  let returnAddr := proposal.procedure.returnAddr
  if deposit = 0 then pots
  else if returnAddr.length < 29 then pots
  else
    let key := rewardAccountToHash returnAddr
    match pots.1.rewardAccounts.lookup key with
    | some balance =>
      ({ pots.1 with
          rewardAccounts := pots.1.rewardAccounts.insert key (satAdd balance deposit) }, pots.2)
    | none => (pots.1, { pots.2 with treasury := satAdd pots.2.treasury deposit })

namespace GovernanceState

variable (gov : GovernanceState)

/-- One id of a removal, with the descendants of its proposal if it has one. -/
def withDescendants (out : Finset GovActionId) (id : GovActionId) : Finset GovActionId :=
  match purposeOf gov.proposals id with
  | some purpose => (gov.forest.tree purpose).collectDescendants id (insert id out)
  | none => insert id out

/-- The ids that `forest_remove_with_descendants` removes. -/
def removalSet (ids : List GovActionId) : Finset GovActionId := ids.foldl gov.withDescendants ∅

/-- Take the node of an open proposal out of the forest. -/
def removeProposalNode (proposals : Proposals) (forest : ProposalForest) (id : GovActionId) :
    ProposalForest :=
  match purposeOf proposals id with
  | some purpose => forest.modify purpose fun tree => tree.removeNode id
  | none => forest

/-- `forest_remove_with_descendants`; the removed proposals are returned for their refunds. -/
def removeWithDescendants (ids : List GovActionId) :
    List (GovActionId × ProposalState) × GovernanceState :=
  let toRemove := sortedIds (gov.removalSet ids)
  (toRemove.filterMap fun id => (gov.proposals.lookup id).map (Prod.mk id), { gov with
      forest := toRemove.foldl (removeProposalNode gov.proposals) gov.forest
      proposals := gov.proposals.retain fun id _ => id ∉ toRemove
      votesByAction := gov.votesByAction.retain fun id _ => id ∉ toRemove })

end GovernanceState

namespace SubStates

variable (s : SubStates)

/-- Refund some removed proposals. -/
def refundAll (removed : List (GovActionId × ProposalState)) : SubStates :=
  let pots := removed.foldl (fun pots e => refundProposalDeposit pots e.2) (s.certs, s.epochs)
  { s with certs := pots.1, epochs := pots.2 }

/-- Remove proposals with their descendants and refund them. -/
def dropProposals (ids : List GovActionId) : List (GovActionId × ProposalState) × SubStates :=
  let (removed, gov) := s.gov.removeWithDescendants ids
  (removed, { s with gov }.refundAll removed)

/-- The second loop: an enacted proposal leaves the forest, the proposals and the votes. -/
def enactOne (acc : List (GovActionId × ProposalState) × SubStates) (id : GovActionId) :
    List (GovActionId × ProposalState) × SubStates :=
  let s := acc.2
  let gov := { s.gov with
    forest := removeProposalNode s.gov.proposals s.gov.forest id
    proposals := s.gov.proposals.erase id
    votesByAction := s.gov.votesByAction.erase id }
  match s.gov.proposals.lookup id with
  | some state => (acc.1 ++ [(id, state)], { s with gov }.refundAll [(id, state)])
  | none => (acc.1, { s with gov })

/-- The third loop: the siblings of an enacted proposal go, and it becomes the root. -/
def dropSiblings (enacted : GovActionId × ProposalState) : SubStates :=
  match govActionPurposeTag enacted.2.procedure.govAction with
  | none => s
  | some purpose =>
    let siblings := sortedIds ((s.gov.forest.tree purpose).root.children.erase enacted.1)
    let s := (s.dropProposals siblings).2
    { s with gov := { s.gov with
        forest := s.gov.forest.modify purpose fun tree => tree.promoteRoot enacted.1 } }

def proposalsApplyEnactment (ratified expired : List GovActionId) : SubStates :=
  let (expiredRemoved, s) := s.dropProposals expired
  let (ratifiedWithState, s) := ratified.foldl enactOne ([], s)
  let s := ratifiedWithState.foldl dropSiblings s
  { s with gov := { s.gov with
      lastRatified := ratifiedWithState
      lastExpired := expiredRemoved.map (·.1) } }

end SubStates

/-! ## What is removed and refunded -/

/-- `s'` has the proposals of `s` without those of `removed`, each of which is refunded once. -/
structure Removes (s s' : SubStates) (removed : List (GovActionId × ProposalState)) : Prop where
  listed : ∀ e ∈ removed, s.gov.proposals.lookup e.1 = some e.2
  nodup : (removed.map (·.1)).Nodup
  lookup : ∀ id, s'.gov.proposals.lookup id =
    if id ∈ removed.map (·.1) then none else s.gov.proposals.lookup id
  refunds : (s'.certs, s'.epochs) =
    removed.foldl (fun pots e => refundProposalDeposit pots e.2) (s.certs, s.epochs)

namespace Removes

variable {s s' s'' : SubStates} {removed removed' : List (GovActionId × ProposalState)}

theorem nil (hprops : s'.gov.proposals = s.gov.proposals) (hcerts : s'.certs = s.certs)
    (hepochs : s'.epochs = s.epochs) : Removes s s' [] where
  listed e he := by cases he
  nodup := nodup_nil
  lookup id := by simp [hprops]
  refunds := by simp [hcerts, hepochs]

theorem trans (h : Removes s s' removed) (h' : Removes s' s'' removed') :
    Removes s s'' (removed ++ removed') := by
  -- what goes later was still there
  have hlater : ∀ e ∈ removed', e.1 ∉ removed.map (·.1) := by
    intro e he hmem
    have hsome := h'.listed e he
    rw [h.lookup, if_pos hmem] at hsome
    cases hsome
  refine ⟨?_, ?_, ?_, ?_⟩
  · intro e he
    rcases mem_append.1 he with he | he
    · exact h.listed e he
    · have hsome := h'.listed e he
      rwa [h.lookup, if_neg (hlater e he)] at hsome
  · rw [map_append, nodup_append]
    refine ⟨h.nodup, h'.nodup, fun a ha b hb heq => ?_⟩
    obtain ⟨e, he, rfl⟩ := mem_map.1 hb
    exact hlater e he (heq ▸ ha)
  · intro id
    rw [h'.lookup, h.lookup, map_append]
    by_cases hold : id ∈ removed.map (·.1) <;> by_cases hnew : id ∈ removed'.map (·.1) <;>
      simp only [mem_append, hold, hnew, or_self, or_true, true_or, if_true, if_false]
  · rw [foldl_append, ← h.refunds, h'.refunds]

end Removes

theorem mem_dropProposals (s : SubStates) (ids : List GovActionId) (id : GovActionId) :
    id ∈ (s.dropProposals ids).1.map (·.1) ↔
      id ∈ s.gov.removalSet ids ∧ (s.gov.proposals.lookup id).isSome := by
  simp only [dropProposals, removeWithDescendants, mem_map,
    mem_filterMap, Option.map_eq_some_iff, mem_sortedIds]
  constructor
  · rintro ⟨_, ⟨id', hid', state, hstate, rfl⟩, rfl⟩
    exact ⟨hid', by rw [hstate]; rfl⟩
  · rintro ⟨hid, hsome⟩
    obtain ⟨state, hstate⟩ := Option.isSome_iff_exists.1 hsome
    exact ⟨(id, state), ⟨id, hid, state, hstate, rfl⟩, rfl⟩

theorem removes_dropProposals (s : SubStates) (ids : List GovActionId) :
    Removes s (s.dropProposals ids).2 (s.dropProposals ids).1 := by
  refine ⟨?_, ?_, ?_, rfl⟩
  · intro e he
    obtain ⟨id, -, hentry⟩ := mem_filterMap.1 he
    obtain ⟨state, hstate, rfl⟩ := Option.map_eq_some_iff.1 hentry
    exact hstate
  · simp only [dropProposals, removeWithDescendants, map_filterMap, Option.map_map]
    refine (Listing.nodup_listed GovActionId.rank_injective _).filterMap fun id id' key hkey hkey' => ?_
    obtain ⟨_, -, rfl⟩ := Option.map_eq_some_iff.1 hkey
    obtain ⟨_, -, heq⟩ := Option.map_eq_some_iff.1 hkey'
    exact heq.symm
  · intro id
    have hlookup : (s.dropProposals ids).2.gov.proposals.lookup id =
        (s.gov.proposals.lookup id).filter fun _ => id ∉ sortedIds (s.gov.removalSet ids) := by
      exact FinMap.lookup_retain _ _ _
    rw [hlookup]
    cases hstate : s.gov.proposals.lookup id with
    | none => simp
    | some state =>
      simp only [mem_dropProposals, hstate, mem_sortedIds, Option.isSome_some, and_true]
      by_cases hmem : id ∈ s.gov.removalSet ids <;> simp [hmem]

/-! ## The enacted proposals -/

/-- The second loop collects what it removes. -/
theorem removes_enactOne (acc : List (GovActionId × ProposalState) × SubStates) (id : GovActionId) :
    ∃ removed, (enactOne acc id).1 = acc.1 ++ removed ∧ Removes acc.2 (enactOne acc id).2 removed ∧
      ∀ e ∈ removed, e.1 = id := by
  rw [enactOne]
  cases hstate : acc.2.gov.proposals.lookup id with
  | none =>
    refine ⟨[], (append_nil _).symm, Removes.nil ?_ rfl rfl, fun e he => by cases he⟩
    exact FinMap.erase_of_lookup_none hstate
  | some state =>
  refine ⟨[(id, state)], rfl, ⟨?_, nodup_singleton id, ?_, rfl⟩, ?_⟩
  · intro e he
    rw [mem_singleton.1 he]
    exact hstate
  · intro k
    simp only [refundAll, FinMap.lookup_erase_ite, map_singleton, mem_singleton]
  · intro e he
    rw [mem_singleton.1 he]

/-! ## The refunds in coins -/

end Dugite
