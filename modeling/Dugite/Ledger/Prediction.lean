import Dugite.Ledger.DepositSums
import Dugite.Ledger.GovRuns
import Dugite.Validation.Authorisation

/-!
# The boundary enacts what was planned

The plan that a boundary freezes is made on a copy of the state; the next boundary enacts its ids on
the state that has moved on meanwhile. `Grows` is what the transactions in between leave as it was:
the open proposals stay, and so does what governance is. So the same actions have the same effect,
none of them has gone, and the expired ones go with their descendants, among which is no action of
the plan.
-/

namespace Dugite

open List Nat

/-! ## Steps between two boundaries -/

/-- A step that does not touch the proposals or what governance is. -/
structure Quiet (s s' : SubStates) : Prop where
  proposals : s'.gov.proposals = s.gov.proposals
  forest : s'.gov.forest = s.gov.forest
  prospect : s'.prospect = s.prospect

/-- The open proposals stay, and what governance is stays. -/
structure Grows (s s' : SubStates) : Prop where
  kept : ∀ {id state}, s.gov.proposals.lookup id = some state →
    s'.gov.proposals.lookup id = some state
  prospect : s'.prospect = s.prospect

theorem Grows.trans {s s' s'' : SubStates} (h : Grows s s') (h' : Grows s' s'') : Grows s s'' :=
  ⟨fun hid => h'.kept (h.kept hid), h'.prospect.trans h.prospect⟩

theorem Quiet.grows {s s' : SubStates} (h : Quiet s s') : Grows s s' := by
  refine ⟨fun hid => ?_, h.prospect⟩
  rw [h.proposals]
  exact hid

theorem Quiet.tracked {s s' : SubStates} (h : Quiet s s') {known : GovActionId → Prop}
    (hs : Tracked known s.gov) : Tracked known s'.gov :=
  hs.congr h.proposals h.forest (congrArg (·.2.1.prevGovActionIds) h.prospect)
    (congrArg (·.1) h.prospect)

theorem quiet_of_settled {s s' : SubStates} (hgov : s'.gov.settled = s.gov.settled)
    (hepochs : s'.epochs = s.epochs) : Quiet s s' where
  proposals := (congrArg GovernanceState.proposals hgov :)
  forest := (congrArg GovernanceState.forest hgov :)
  prospect := (congrArg₂ (fun gov epochs => SubStates.prospect { s with gov, epochs }) hgov
    hepochs :)

/-! ## Transactions -/

/-- The ids that the transactions so far have made, and the first `n` of one more. -/
def MadeBy (used : Finset Hash32) (hash : Hash32) (n : Nat) (id : GovActionId) : Prop :=
  id.transactionId ∈ used ∨ id.transactionId = hash ∧ id.actionIndex.toNat < n

namespace ConwayRules

variable {ctx : RuleContext} {tx : Transaction} {used : Finset Hash32} (hnew : tx.hash ∉ used)
include hnew

theorem not_madeBy_actionId {n : Nat} (hn : n < 2 ^ 32) :
    ¬ MadeBy used tx.hash n (actionId tx n) := by
  rintro (hused | ⟨-, hlt⟩)
  · exact hnew hused
  · rw [actionId, BitVec.toNat_ofNat, mod_eq_of_lt hn] at hlt
    exact lt_irrefl n hlt

/-- The proposals of a transaction, one after the other. -/
theorem tracked_applyProposals (rest : List ProposalProcedure) :
    ∀ {n : Nat} {s s' : SubStates}, n + rest.length ≤ 2 ^ 32 →
      Tracked (MadeBy used tx.hash n) s.gov →
      (rest.zipIdx n).foldlM (applyProposal ctx tx) s = .ok s' →
      Tracked (MadeBy used tx.hash (n + rest.length)) s'.gov ∧ Grows s s' := by
  induction rest with
  | nil =>
    intro n s s' _ h hok
    cases hok
    exact ⟨h, fun hid => hid, rfl⟩
  | cons p rest ih =>
    intro n s s' hbound h hok
    rw [length_cons] at hbound
    obtain ⟨t, hstep, hok⟩ := Checks.bind_eq_ok.1 hok
    have hnext : ∀ id, MadeBy used tx.hash n id ∨ id = actionId tx n →
        MadeBy used tx.hash (n + 1) id := by
      rintro id ((hused | ⟨hhash, hlt⟩) | rfl)
      · exact .inl hused
      · exact .inr ⟨hhash, lt_succ_of_lt hlt⟩
      · refine .inr ⟨rfl, ?_⟩
        rw [actionId, BitVec.toNat_ofNat, mod_eq_of_lt (by omega)]
        exact lt_succ_self n
    have hfresh := not_madeBy_actionId hnew (show n < 2 ^ 32 by omega)
    have hone : Tracked (MadeBy used tx.hash (n + 1)) t.gov ∧ Grows s t := by
      obtain ⟨hvalid, rfl | ⟨state, hstate, rfl⟩⟩ := applyProposal_ok hstep
      · exact ⟨h.mono fun id hid => hnext id (.inl hid), fun hid => hid, rfl⟩
      rw [← hstate] at hvalid
      refine ⟨(h.openProposal hfresh hvalid).mono hnext, fun {id _} hid => ?_, rfl⟩
      have hne : id ≠ actionId tx n := by
        rintro rfl
        rw [(h.unseen hfresh).closed] at hid
        cases hid
      exact (FinMap.lookup_insert_ite _ _ _ _).trans ((if_neg hne).trans hid)
    obtain ⟨htracked, hgrows⟩ := ih (by omega) hone.1 hok
    rw [length_cons, add_comm rest.length, ← add_assoc]
    exact ⟨htracked, hone.2.trans hgrows⟩

/-- A transaction that was not applied before. -/
theorem tracked_applyValidTx {mode : BlockValidationMode} {s s' : SubStates} {diff : UtxoDiff}
    (hbound : tx.body.proposalProcedures.length ≤ 2 ^ 32)
    (h : Tracked (fun id => id.transactionId ∈ used) s.gov)
    (hok : applyValidTx mode ctx tx s = .ok (s', diff)) :
    Tracked (fun id => id.transactionId ∈ insert tx.hash used) s'.gov ∧ Grows s s' := by
  obtain ⟨t, hprocess, rfl⟩ := applyValidTx_eq_ok hok
  have hbefore := view_beforeProposals ctx tx s
  have hvotes := sameCoins_recordVotes tx (beforeProposals ctx tx s).gov
  have hquiet : Quiet s { beforeProposals ctx tx s with
      gov := recordVotes tx (beforeProposals ctx tx s).gov } :=
    quiet_of_settled (hvotes.settled.trans (congrArg CoinView.gov hbefore))
      (congrArg CoinView.epochs hbefore)
  have hstart : Tracked (MadeBy used tx.hash 0)
      { beforeProposals ctx tx s with gov := recordVotes tx (beforeProposals ctx tx s).gov }.gov :=
    (hquiet.tracked h).mono fun id hid => .inl hid
  obtain ⟨htracked, hgrows⟩ := tracked_applyProposals hnew tx.body.proposalProcedures
    (by rwa [zero_add]) hstart hprocess
  have hspend : Quiet t (spend tx t).1 := quiet_of_settled rfl rfl
  refine ⟨(hspend.tracked htracked).mono fun id hid => ?_,
    hquiet.grows.trans (hgrows.trans hspend.grows)⟩
  rw [Finset.mem_insert]
  exact hid.elim .inr fun hid => .inl hid.1

end ConwayRules

/-! ## Runs -/

/-- What happens between two boundaries, from a state that the transactions of `used` led to: each
transaction is new, and whatever else happens leaves the proposals and what governance is alone. -/
inductive Acts (used : Finset Hash32) (s : SubStates) : Finset Hash32 → SubStates → Prop
  | refl : Acts used s used s
  | quiet {used' s' s''} : Acts used s used' s' → Quiet s' s'' → Acts used s used' s''
  | tx {used' s' s'' mode ctx tx diff} : Acts used s used' s' → tx.hash ∉ used' →
    tx.body.proposalProcedures.length ≤ 2 ^ 32 →
    ConwayRules.applyValidTx mode ctx tx s' = .ok (s'', diff) →
    Acts used s (insert tx.hash used') s''

theorem Acts.tracked {used used' : Finset Hash32} {s s' : SubStates} (h : Acts used s used' s')
    (hs : Tracked (fun id => id.transactionId ∈ used) s.gov) :
    Tracked (fun id => id.transactionId ∈ used') s'.gov ∧ Grows s s' := by
  induction h with
  | refl => exact ⟨hs, fun hid => hid, rfl⟩
  | quiet _ hquiet ih => exact ⟨hquiet.tracked ih.1, ih.2.trans hquiet.grows⟩
  | tx _ hnew hbound hok ih =>
    obtain ⟨htracked, hgrows⟩ := ConwayRules.tracked_applyValidTx hnew hbound ih.1 hok
    exact ⟨htracked, ih.2.trans hgrows⟩

/-- The states of a chain that starts without proposals, with the transactions that led to them. A
boundary applies the plan it finds, and a later step of it freezes a new one. -/
inductive Reached : Finset Hash32 → SubStates → Prop
  | start {s} : s.gov.proposals = ∅ → s.gov.forest = {} → s.gov.enacted = {} →
    s.gov.drepPulsingState = none → Reached ∅ s
  | acts {used used' s s'} : Reached used s → Acts used s used' s' → Reached used' s'
  | boundary {used s} : Reached used s → Reached used s.ratifyAtBoundary
  /-- The rest of a boundary: pots, snapshots, parameters, DReps and committee keys. -/
  | other {used s s'} : Reached used s → s'.gov.proposals = s.gov.proposals →
    s'.gov.forest = s.gov.forest → s'.gov.enacted = s.gov.enacted →
    s'.gov.drepPulsingState = s.gov.drepPulsingState → Reached used s'
  | freeze {used s} (stakeMap epoch) : Reached used s → Reached used (s.freeze stakeMap epoch)

theorem Reached.tracked {used : Finset Hash32} {s : SubStates} (h : Reached used s) :
    Tracked (fun id => id.transactionId ∈ used) s.gov := by
  induction h with
  | start hproposals hforest henacted hpulser => exact .empty hproposals hforest henacted hpulser
  | acts _ hacts ih => exact (hacts.tracked ih).1
  | boundary _ ih => exact ih.ratifyAtBoundary
  | other _ hproposals hforest henacted hpulser ih =>
    exact ih.congr hproposals hforest henacted hpulser
  | freeze stakeMap epoch _ ih => exact ih.freeze stakeMap epoch

/-! ## The plan on the live state -/

/-- A proposal expires, alone or with one that it descends from. -/
def Expires (proposals : Proposals) (expired : List GovActionId) (x : GovActionId) : Prop :=
  x ∈ expired ∨ ∃ y ∈ expired, Descends proposals y x

/-- The second loop takes the enacted proposals, in their order. -/
theorem foldl_enactOne (ids : List GovActionId) :
    ∀ acc : List (GovActionId × ProposalState) × SubStates, ids.Nodup →
      (∀ id ∈ ids, (acc.2.gov.proposals.lookup id).isSome) →
      ∃ removed, (ids.foldl SubStates.enactOne acc).1 = acc.1 ++ removed ∧
        Removes acc.2 (ids.foldl SubStates.enactOne acc).2 removed ∧
        removed.map (·.1) = ids := by
  induction ids with
  | nil =>
    intro acc _ _
    exact ⟨[], (append_nil _).symm, Removes.nil rfl rfl rfl, rfl⟩
  | cons id ids ih =>
    intro acc hnodup hlive
    rw [nodup_cons] at hnodup
    rw [forall_mem_cons] at hlive
    obtain ⟨state, hstate⟩ := Option.isSome_iff_exists.1 hlive.1
    obtain ⟨one, hout, hremoves, hid⟩ := removes_enactOne acc id
    have hone : one.map (·.1) = [id] := by
      have : (SubStates.enactOne acc id).1 = acc.1 ++ [(id, state)] := by rw [SubStates.enactOne, hstate]
      rw [hout, append_cancel_left_eq] at this
      rw [this, map_singleton]
    have hrest : ∀ k ∈ ids, ((SubStates.enactOne acc id).2.gov.proposals.lookup k).isSome := by
      intro k hk
      rw [hremoves.without.isSome_iff, hone, mem_singleton]
      exact ⟨hlive.2 k hk, fun heq => hnodup.1 (heq ▸ hk)⟩
    obtain ⟨rest, hout', hremoves', hids⟩ := ih (SubStates.enactOne acc id) hnodup.2 hrest
    refine ⟨one ++ rest, ?_, hremoves.trans hremoves', ?_⟩
    · rw [foldl_cons, hout', hout, append_assoc]
    · rw [map_append, hone, hids, singleton_append]

/-- A boundary that does what was planned: it comes to the planned terms and parameters and enacts
the planned ids; the ids that expire are the planned ones and what descends from them. -/
structure Fulfilled (plan : PulsedRatifyState) (before after : SubStates) : Prop where
  terms : after.enactedTerms = plan.enactState
  params : after.epochs.protocolParams = plan.curPparams
  enacted : after.gov.lastRatified.map (·.1) = plan.enacted
  expired : ∀ id ∈ plan.expired, id ∈ after.gov.lastExpired
  onlyExpired : ∀ id ∈ after.gov.lastExpired, Expires before.gov.proposals plan.expired id

section
variable {snapshot : PulsingSnapshot} {standing : EnactedGovTerms × ProtocolParameters}
  {plan : PulsedRatifyState} {pass : RatifyPass} {s : SubStates}
  (h : PlanOf snapshot standing plan pass)
include h

theorem PlanOf.standing_enactPlan (hs : s.standing = standing) :
    (s.enactPlan ⟨snapshot, plan⟩).standing = (plan.enactState, plan.curPparams) := by
  obtain ⟨hreplay, hroots⟩ := h.replays hs
  rw [h.standing]
  rw [← h.enacted] at hreplay hroots
  obtain ⟨hterms, hparams⟩ := Prod.mk.inj hreplay
  obtain ⟨hcommittee, hthreshold, hconstitution, -⟩ := EnactedGovTerms.mk.inj hterms
  exact SubStates.standing_eq hcommittee hthreshold hconstitution hroots hparams

/-- Whatever an action of the plan descends from is in the plan, if the frozen roots are closed. -/
theorem PlanOf.enacted_of_descends {proposals : Proposals}
    (hkept : ∀ {id state}, snapshot.proposals.lookup id = some state →
      proposals.lookup id = some state)
    (hclosed : ∀ purpose id, snapshot.enacted.get purpose = some id → proposals.lookup id = none)
    {x y : GovActionId} (hdesc : Descends proposals x y) (hy : y ∈ plan.enacted) :
    x ∈ plan.enacted := by
  have hstep : ∀ {a b}, Continues proposals a b → b ∈ plan.enacted → a ∈ plan.enacted := by
    rintro a b ⟨purpose, ha, hb, hprev⟩ hmem
    obtain ⟨state, hstate⟩ := Option.isSome_iff_exists.1
      (h.isSome_of_mem (mem_append_left _ hmem))
    have hpurpose : purposeOf snapshot.proposals b = some purpose := by
      rw [purposeOf_of_lookup hstate, ← purposeOf_of_lookup (hkept hstate), hb]
    have hnamed : prevOf snapshot.proposals b = some a := by
      rw [prevOf_of_lookup hstate, ← prevOf_of_lookup (hkept hstate), hprev]
    rw [h.enacted] at hmem ⊢
    rcases (h.planned.inTurn purpose).prev_cases (mem_lineOf.2 ⟨hmem, hpurpose⟩) with
      hroot | ⟨c, hc, hcont⟩
    · have hsome := isSome_of_purposeOf ha
      rw [hclosed purpose a (hroot.symm.trans hnamed)] at hsome
      cases hsome
    · rw [hnamed] at hcont
      exact Option.some.inj hcont ▸ (mem_lineOf.1 hc).1
  induction hdesc with
  | single hcont => exact hstep hcont hy
  | tail _ hcont ih => exact ih (hstep hcont hy)

theorem PlanOf.fulfilled (hs : s.standing = standing) (hlinked : Linked s.gov)
    (hkept : ∀ {id state}, snapshot.proposals.lookup id = some state →
      s.gov.proposals.lookup id = some state)
    (hclosed : ∀ purpose id, snapshot.enacted.get purpose = some id →
      s.gov.proposals.lookup id = none) :
    Fulfilled plan s (s.applyPlan ⟨snapshot, plan⟩) := by
  obtain ⟨hproposals, hforest, -⟩ := enactPlan_keeps s ⟨snapshot, plan⟩
  obtain ⟨hterms, hparams⟩ := Prod.mk.inj (h.standing_enactPlan hs)
  have hsame := Prod.mk.inj (congrArg (·.2) (prospect_applyPlan s ⟨snapshot, plan⟩))
  have hlive : ∀ {id}, id ∈ plan.enacted ++ plan.expired →
      ((s.enactPlan ⟨snapshot, plan⟩).gov.proposals.lookup id).isSome := by
    intro id hid
    obtain ⟨state, hstate⟩ := Option.isSome_iff_exists.1 (h.isSome_of_mem hid)
    rw [hproposals, hkept hstate]
    rfl
  have hremoved : ∀ {id}, id ∈ (s.enactPlan ⟨snapshot, plan⟩).gov.removalSet plan.expired →
      Expires s.gov.proposals plan.expired id := by
    intro id hid
    have hlinked' := hlinked.congr hproposals hforest
    rw [← hproposals]
    exact hlinked'.mem_removalSet hid
  have hnodup : (plan.enacted ++ plan.expired).Nodup := by
    rw [h.enacted, h.expired]
    exact h.planned.nodup
  -- no action of the plan goes with an expired one
  have hstays : ∀ {id}, id ∈ plan.enacted → ¬ Expires s.gov.proposals plan.expired id := by
    rintro id hid (hmem | ⟨x, hx, hdesc⟩)
    · exact (nodup_append.1 hnodup).2.2 id hid id hmem rfl
    · exact (nodup_append.1 hnodup).2.2 x
        (h.enacted_of_descends hkept hclosed hdesc hid) x hx rfl
  refine ⟨hsame.1.trans hterms, hsame.2.trans hparams, ?_, fun id hid => ?_, fun id hid => ?_⟩
  · obtain ⟨removed, hout, -, hids⟩ := foldl_enactOne plan.enacted
      ([], ((s.enactPlan ⟨snapshot, plan⟩).dropProposals plan.expired).2)
      (nodup_append.1 hnodup).1 fun id hid => by
        rw [(removes_dropProposals _ _).without.isSome_iff, mem_dropProposals]
        exact ⟨hlive (mem_append_left _ hid), fun hmem => hstays hid (hremoved hmem.1)⟩
    rw [← hids]
    exact congrArg (map (·.1)) hout
  · exact (mem_dropProposals _ _ id).2 ⟨mem_removalSet_of_mem _ hid, hlive (mem_append_right _ hid)⟩
  · exact hremoved ((mem_dropProposals _ _ id).1 hid).1

end

/-- What a freeze plans is what the next boundary enacts, whatever transactions come in between. -/
theorem boundary_fulfils_plan {used used' : Finset Hash32} {s s' : SubStates} (h : Reached used s)
    (stakeMap : FinMap Hash32 Nat) (epoch : Nat)
    (hacts : Acts used (s.freeze stakeMap epoch) used' s') :
    ∃ pulser, (s.freeze stakeMap epoch).gov.drepPulsingState = some pulser ∧
      Fulfilled pulser.ratifyState s' s'.ratifyAtBoundary := by
  obtain ⟨htracked, hgrows⟩ := hacts.tracked (h.tracked.freeze stakeMap epoch)
  obtain ⟨plan, heq, pass, hplan⟩ := freeze_eq stakeMap epoch s
  rw [heq] at hgrows ⊢
  obtain ⟨hpulser, hstanding⟩ := Prod.mk.inj hgrows.prospect
  obtain ⟨hterms, hparams, henacted, hexpired, honly⟩ :=
    hplan.fulfilled hstanding htracked.linked hgrows.kept (htracked.frozen hpulser).rootClosed
  refine ⟨_, rfl, ?_⟩
  rw [ratifyAtBoundary_eq hpulser]
  exact ⟨hterms, hparams, henacted, hexpired, honly⟩

/-! ## A proposal that expires with the one it continues -/

/-- A ledger without accounts and proposals. -/
def emptyLedger : SubStates where
  utxo := { utxoSet := ∅ }
  epochs := { protocolParams := plainValidator.params }

def atEpoch (epoch : Nat) (params : ProtocolParameters := plainValidator.params) : RuleContext where
  params
  currentSlot := 0
  currentEpoch := epoch
  txIndex := 0

def firstId : GovActionId := ⟨1, 0⟩
def secondId : GovActionId := ⟨2, 0⟩

/-- A transaction that proposes to change the parameters. -/
def proposeChange (hash : Hash32) (prev : Option GovActionId) (update : ProtocolParamUpdate := {}) :
    Transaction where
  hash := hash
  body :=
    { inputs := []
      outputs := []
      fee := 0
      proposalProcedures :=
        [{ deposit := 1000
           returnAddr := 0xE0 :: replicate 28 1
           govAction := .parameterChange prev update none
           anchor := ⟨"", 0⟩ }] }

/-- The state after a transaction, or the old one if it fails. -/
def appliedTx (ctx : RuleContext) (tx : Transaction) (s : SubStates) : SubStates :=
  match ConwayRules.applyValidTx .validateAll ctx tx s with
  | .ok (s', _) => s'
  | .error _ => s

/-- A proposal of epoch 0, which expires after epoch 6. -/
def firstProposed : SubStates := appliedTx (atEpoch 0) (proposeChange 1 none) emptyLedger

/-- A proposal that continues it, of a later epoch. -/
def continuation (epoch : Nat) (s : SubStates) : SubStates :=
  appliedTx (atEpoch epoch s.epochs.protocolParams) (proposeChange 2 (some firstId)) s

theorem reached_firstProposed : Reached {1} firstProposed := by
  have hok : ∃ diff, ConwayRules.applyValidTx .validateAll (atEpoch 0) (proposeChange 1 none)
      emptyLedger = .ok (firstProposed, diff) := ⟨_, rfl⟩
  obtain ⟨diff, hok⟩ := hok
  exact .acts (.start rfl rfl rfl rfl) (.tx .refl (by decide) (by decide) hok)

/-- In every state of a chain the links of the forest are sound: what a tree lists below its root or
a node is open, has the purpose of the tree and continues the root or the action of the node. Every
open proposal comes from a transaction of the chain, and what governs already is not open. -/
theorem forest_links_sound {used : Finset Hash32} {s : SubStates} (h : Reached used s) :
    Linked s.gov ∧ (∀ id, (s.gov.proposals.lookup id).isSome → id.transactionId ∈ used) ∧
      ∀ purpose id, s.gov.enacted.get purpose = some id → s.gov.proposals.lookup id = none :=
  ⟨h.tracked.linked, fun _ => h.tracked.known_of_isSome, h.tracked.rootClosed⟩

theorem reached_continuation : Reached {2, 1} (continuation 5 firstProposed) := by
  have hok : ∃ diff, ConwayRules.applyValidTx .validateAll (atEpoch 5)
      (proposeChange 2 (some firstId)) firstProposed = .ok (continuation 5 firstProposed, diff) :=
    ⟨_, rfl⟩
  obtain ⟨diff, hok⟩ := hok
  exact .acts reached_firstProposed (.tx .refl (by decide) (by decide) hok)

/-- The first proposal stands below the root and the second below the first. -/
theorem continuation_linked :
    ((continuation 5 firstProposed).gov.forest.tree .pparam).root.children = {firstId} ∧
      ((continuation 5 firstProposed).gov.forest.tree .pparam).childrenOf firstId = [secondId] ∧
      Linked (continuation 5 firstProposed).gov :=
  ⟨by decide +kernel, by decide +kernel, (forest_links_sound reached_continuation).1⟩

/-- A ledger of the bootstrap phase, with a committee of one member that votes with the key 5. -/
def bootstrapLedger : SubStates :=
  { emptyLedger with
    epochs := { protocolParams := { plainValidator.params with protocolVersionMajor := 9 } }
    gov :=
      { committeeExpiration := Finmap.insert 4 100 ∅
        committeeHotKeys := Finmap.insert 4 (Credential.verificationKey 5).toTypedHash32 ∅
        committeeThreshold := some ⟨1, 2⟩ } }

def atBootstrap (epoch : Nat) : RuleContext := atEpoch epoch bootstrapLedger.epochs.protocolParams

/-- A proposal to raise the deposit for keys. -/
def raiseKeyDeposit : Transaction := proposeChange 1 none { keyDeposit := some 3 }

/-- The member votes for the first proposal. -/
def memberVotes : Transaction where
  hash := 3
  body :=
    { inputs := []
      outputs := []
      fee := 0
      votingProcedures := .single (.constitutionalCommittee (.verificationKey 5))
        (.single firstId ⟨.yes, none⟩) }

/-- A change of the parameters that the committee accepts. -/
def acceptedChange : SubStates :=
  appliedTx (atBootstrap 0) memberVotes (appliedTx (atBootstrap 0) raiseKeyDeposit bootstrapLedger)

theorem reached_acceptedChange : Reached {3, 1} acceptedChange := by
  have hproposed : ∃ diff, ConwayRules.applyValidTx .validateAll (atBootstrap 0) raiseKeyDeposit
      bootstrapLedger = .ok (appliedTx (atBootstrap 0) raiseKeyDeposit bootstrapLedger, diff) :=
    ⟨_, rfl⟩
  have hvoted : ∃ diff, ConwayRules.applyValidTx .validateAll (atBootstrap 0) memberVotes
      (appliedTx (atBootstrap 0) raiseKeyDeposit bootstrapLedger) = .ok (acceptedChange, diff) :=
    ⟨_, rfl⟩
  obtain ⟨_, hproposed⟩ := hproposed
  obtain ⟨_, hvoted⟩ := hvoted
  exact .acts (.start rfl rfl rfl rfl)
    (.tx (.tx .refl (by decide) (by decide) hproposed) (by decide) (by decide) hvoted)

/-- The change is planned to be enacted, and is continued in the epoch of the plan. -/
theorem fulfils_after_continuation :
    ∃ pulser, (acceptedChange.freeze ∅ 1).gov.drepPulsingState = some pulser ∧
      pulser.ratifyState.enacted = [firstId] ∧ pulser.ratifyState.curPparams.keyDeposit = 3 ∧
      Fulfilled pulser.ratifyState (continuation 1 (acceptedChange.freeze ∅ 1))
        (continuation 1 (acceptedChange.freeze ∅ 1)).ratifyAtBoundary := by
  have hok : ∃ diff, ConwayRules.applyValidTx .validateAll (atBootstrap 1)
      (proposeChange 2 (some firstId)) (acceptedChange.freeze ∅ 1) =
        .ok (continuation 1 (acceptedChange.freeze ∅ 1), diff) := ⟨_, rfl⟩
  obtain ⟨diff, hok⟩ := hok
  obtain ⟨pulser, hpulser, hfulfilled⟩ := boundary_fulfils_plan reached_acceptedChange ∅ 1
    (.tx .refl (by decide) (by decide) hok)
  refine ⟨pulser, hpulser, ?_, ?_, hfulfilled⟩
  · rw [← Option.some_inj.1 hpulser]
    decide +kernel
  · rw [← Option.some_inj.1 hpulser]
    decide +kernel

/-- The continuation is not planned to expire, and goes with the first proposal. -/
theorem continuation_expires_unplanned :
    ∃ pulser, Reached {2, 1} (continuation 5 firstProposed) ∧
      ((continuation 5 firstProposed).freeze ∅ 7).gov.drepPulsingState = some pulser ∧
      pulser.ratifyState.expired = [firstId] ∧
      ((continuation 5 firstProposed).freeze ∅ 7).ratifyAtBoundary.gov.lastExpired =
        [firstId, secondId] := by
  refine ⟨_, reached_continuation, rfl, ?_, ?_⟩
  · decide +kernel
  · decide +kernel

end Dugite
