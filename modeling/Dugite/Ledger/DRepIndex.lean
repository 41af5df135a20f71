import Dugite.Ledger.Deposits
import Dugite.Lib.TwoWay

/-!
# The index of vote delegations

Each DRep lists the credentials that delegate their vote to it. Version 9 lets the lists and the
delegations drift apart; `updateDRepDelegations`, which the hard fork to version 10 runs, builds the
lists anew. From then on every certificate keeps them (`indexed_applyStep`), as long as a DRep
registers only while it is not registered and a vote goes only to a DRep that is.
-/

namespace Dugite

open Option Function GovernanceState TwoWay FinMap Finmap Credential

/-- The delegations in the order of their credentials. The result of a loop over them does not
depend on the order, which in the source is that of a hash map. -/
def delegationEntries {V : Type} (m : FinMap Hash32 V) : List (Hash32 × V) :=
  Listing.entries BitVec.toNat Hash32.eq_of_toNat m

namespace GovernanceState

/-- Put one delegation on the list of its DRep, or among those that name no DRep. -/
def reindex (acc : GovernanceState × List Hash32) (e : Hash32 × DRep) :
    GovernanceState × List Hash32 :=
  match e.2.credentialHash32 with
  | none => acc
  | some target =>
    if (acc.1.dreps.lookup target).isSome then
      (acc.1.modifyDRep target fun drep => { drep with delegs := insert e.1 drep.delegs }, acc.2)
    else (acc.1, acc.2 ++ [e.1])

section
variable (gov : GovernanceState)

/-- Empty every list, fill them from the delegations, and drop the delegations that name a DRep that
is not registered. -/
def updateDRepDelegations : GovernanceState :=
  let cleared := { gov with dreps := gov.dreps.mapValues fun drep => { drep with delegs := ∅ } }
  let indexed := (delegationEntries gov.voteDelegations).foldl reindex (cleared, [])
  { indexed.1 with voteDelegations := Journal.eraseAll indexed.2 indexed.1.voteDelegations }

/-- The DRep that a credential delegates its vote to; none for the two that are built in. -/
def votesFor (stakeCred : Hash32) : Option Hash32 :=
  (gov.voteDelegations.lookup stakeCred).bind DRep.credentialHash32

/-- The list of a DRep, if it is registered. -/
def delegsOf (key : Hash32) : Option (Finset Hash32) := (gov.dreps.lookup key).map (·.delegs)

/-- The list of each registered DRep holds exactly the credentials whose delegation names it, and no
delegation names a DRep that is not registered. -/
def Indexed : Prop := TwoWay gov.votesFor gov.delegsOf

end

/-! ## One delegation -/

theorem delegsOf_modifyDRep (key : Hash32) {f : DRepRegistration → DRepRegistration}
    {g : Finset Hash32 → Finset Hash32} (hf : ∀ drep, (f drep).delegs = g drep.delegs)
    (gov : GovernanceState) (key' : Hash32) :
    (gov.modifyDRep key f).delegsOf key' =
      if key' = key then (gov.delegsOf key').map g else gov.delegsOf key' := by
  unfold delegsOf
  rw [lookup_modifyDRep]
  split
  · rw [map_map, map_map]
    exact congrArg (Option.map · _) (funext hf)
  · rfl

@[simp] theorem voteDelegations_modifyDRep (key : Hash32) (f : DRepRegistration → DRepRegistration)
    (gov : GovernanceState) : (gov.modifyDRep key f).voteDelegations = gov.voteDelegations := by
  unfold modifyDRep
  cases gov.dreps.lookup key <;> rfl

variable {c key : Hash32} {gov : GovernanceState} (stakeCred : Hash32) (drep : DRep)

/-- The lists after `undelegate_vote`, whatever they were before. -/
theorem delegsOf_undelegateVote (gov : GovernanceState) (key : Hash32) :
    (gov.undelegateVote stakeCred).1.delegsOf key =
      unlisted gov.votesFor gov.delegsOf stakeCred key := by
  unfold unlisted undelegateVote
  cases hlisted : gov.listedUnder stakeCred with
  | some prev =>
    have hvote : gov.votesFor stakeCred = some prev := by
      simp only [listedUnder, bind_eq_bind, bind_eq_some_iff] at hlisted
      obtain ⟨d, hd, key', hkey', drep, _, hif⟩ := hlisted
      split at hif
      · rw [votesFor, hd, bind_some, hkey', hif]
      · cases hif
    refine (delegsOf_modifyDRep prev (g := (·.erase stakeCred)) (fun _ => rfl) gov key).trans ?_
    simp only [hvote, some.injEq, eq_comm]
  | none =>
  dsimp only
  split
  · next hvote =>
    obtain ⟨d, hd, hkey⟩ := bind_eq_some_iff.1 hvote
    cases hdrep : gov.dreps.lookup key with
    | none => simp [delegsOf, hdrep]
    | some drep =>
    have hnot : stakeCred ∉ drep.delegs := by
      intro hmem
      simp [listedUnder, hd, hkey, hdrep, hmem] at hlisted
    simp [delegsOf, hdrep, Finset.erase_eq_of_notMem hnot]
  · rfl

@[simp] theorem voteDelegations_undelegateVote (gov : GovernanceState) :
    (gov.undelegateVote stakeCred).1.voteDelegations = gov.voteDelegations := by
  unfold undelegateVote
  cases gov.listedUnder stakeCred <;> simp

/-- The governance state when a credential has left its list and has its new delegation. -/
def leftFor (stakeCred : Hash32) (drep : DRep) (gov : GovernanceState) : GovernanceState :=
  { (gov.undelegateVote stakeCred).1 with
    voteDelegations := (gov.undelegateVote stakeCred).1.voteDelegations.insert stakeCred drep }

section
variable (gov : GovernanceState)

/-- From version 10 on a delegation leaves one list and joins the other, if there is one. -/
theorem delegateVote_eq :
    gov.delegateVote false stakeCred drep = drep.credentialHash32.elim (leftFor stakeCred drep gov)
      fun target => (leftFor stakeCred drep gov).modifyDRep target fun drep =>
        { drep with delegs := insert stakeCred drep.delegs } := by
  unfold delegateVote
  cases drep.credentialHash32 with
  | none => rfl
  | some target =>
  dsimp only [elim_some]
  split
  · next habsent =>
    rw [isNone_iff_eq_none] at habsent
    rw [modifyDRep, leftFor, habsent]
  · split <;> rfl

theorem votesFor_delegateVote : (gov.delegateVote false stakeCred drep).votesFor =
      update gov.votesFor stakeCred drep.credentialHash32 := by
  have hframe : (gov.delegateVote false stakeCred drep).voteDelegations =
      gov.voteDelegations.insert stakeCred drep := by
    rw [delegateVote_eq]
    cases drep.credentialHash32 <;> simp [leftFor]
  funext c
  rw [votesFor, hframe, lookup_insert_ite, update_apply]
  split <;> rfl

theorem delegsOf_delegateVote : (gov.delegateVote false stakeCred drep).delegsOf =
      moved gov.votesFor gov.delegsOf stakeCred drep.credentialHash32 := by
  funext key
  have hleft : (leftFor stakeCred drep gov).delegsOf key =
      unlisted gov.votesFor gov.delegsOf stakeCred key :=
    delegsOf_undelegateVote stakeCred gov key
  rw [delegateVote_eq, moved, ← hleft]
  cases drep.credentialHash32 with
  | none => rfl
  | some target =>
    refine (delegsOf_modifyDRep target (g := insert stakeCred) (fun _ => rfl) _ key).trans ?_
    simp only [some.injEq, eq_comm]

end

/-! ## What each certificate does to the lists -/

theorem Indexed.delegateVote (h : gov.Indexed) (stakeCred : Hash32)
    {drep : DRep} (hdrep : ∀ key, drep.credentialHash32 = some key →
      (gov.dreps.lookup key).isSome) : (gov.delegateVote false stakeCred drep).Indexed := by
  unfold Indexed
  rw [votesFor_delegateVote, delegsOf_delegateVote]
  refine move h stakeCred fun key hkey => ?_
  rw [delegsOf, isSome_map]
  exact hdrep key hkey

/-- A credential that deregisters leaves its list, and its delegation goes. -/
theorem Indexed.undelegateVote (h : gov.Indexed) (stakeCred : Hash32) :
    Indexed { (gov.undelegateVote stakeCred).1 with
      voteDelegations := (gov.undelegateVote stakeCred).1.voteDelegations.erase stakeCred } := by
  have hmove : TwoWay (update gov.votesFor stakeCred none)
      (moved gov.votesFor gov.delegsOf stakeCred none) := move h stakeCred nofun
  have hvotes : { (gov.undelegateVote stakeCred).1 with
      voteDelegations := (gov.undelegateVote stakeCred).1.voteDelegations.erase
        stakeCred }.votesFor = update gov.votesFor stakeCred none := by
    funext c
    rw [votesFor, lookup_erase_ite, voteDelegations_undelegateVote, update_apply]
    split <;> rfl
  have hdelegs : { (gov.undelegateVote stakeCred).1 with
      voteDelegations := (gov.undelegateVote stakeCred).1.voteDelegations.erase
        stakeCred }.delegsOf = moved gov.votesFor gov.delegsOf stakeCred none :=
    funext fun key => delegsOf_undelegateVote stakeCred gov key
  unfold Indexed
  rw [hvotes, hdelegs]
  exact hmove

section
variable (gov : GovernanceState)

theorem delegsOf_insert (key : Hash32) (drep : DRepRegistration) :
    { gov with dreps := gov.dreps.insert key drep }.delegsOf =
      update gov.delegsOf key (some drep.delegs) := by
  funext key'
  rw [delegsOf, lookup_insert_ite, update_apply]
  split <;> rfl

theorem delegsOf_erase (key : Hash32) : { gov with dreps := gov.dreps.erase key }.delegsOf =
      update gov.delegsOf key none := by
  funext key'
  rw [delegsOf, lookup_erase_ite, update_apply]
  split <;> rfl

/-- The delegations of the credentials on a list are the ones that deregistering it takes away. -/
theorem votesFor_retain (gone : Finset Hash32) :
    { gov with voteDelegations := gov.voteDelegations.retain fun k _ => k ∉ gone }.votesFor =
      fun c => if c ∈ gone then none else gov.votesFor c := by
  funext c
  rw [votesFor, lookup_retain, votesFor]
  cases gov.voteDelegations.lookup c with
  | none | some d => by_cases hc : c ∈ gone <;> simp [hc, Option.filter]

end

/-! ## Building the lists anew -/

/-- The credentials of some delegations that name a DRep. -/
def namedIn (entries : List (Hash32 × DRep)) (key : Hash32) : Finset Hash32 :=
  ((entries.filter fun e => e.2.credentialHash32 = some key).map (·.1)).toFinset

/-- A delegation that names a DRep that is not registered. -/
def dangles (gov : GovernanceState) (e : Hash32 × DRep) : Bool :=
  e.2.credentialHash32.any fun key => (gov.dreps.lookup key).isNone

/-- What the loop has done after some delegations: each list has the credentials that name its DRep,
and the others are noted. -/
theorem foldl_reindex (entries : List (Hash32 × DRep)) (gov : GovernanceState)
    (noted : List Hash32) :
    let result := entries.foldl reindex (gov, noted)
    result.1 = { gov with dreps := result.1.dreps } ∧
      (∀ key, result.1.dreps.lookup key = (gov.dreps.lookup key).map fun drep =>
        { drep with delegs := drep.delegs ∪ namedIn entries key }) ∧
      result.2 = noted ++ (entries.filter (dangles gov)).map (·.1) := by
  induction entries generalizing gov noted with
  | nil => simp [namedIn]
  | cons e entries ih =>
    rw [List.foldl_cons]
    have hhead : reindex (gov, noted) e = e.2.credentialHash32.elim (gov, noted) fun target =>
        (gov.modifyDRep target fun drep => { drep with delegs := insert e.1 drep.delegs },
          if (gov.dreps.lookup target).isSome then noted else noted ++ [e.1]) := by
      unfold reindex
      cases e.2.credentialHash32 with
      | none => rfl
      | some target =>
        cases hdrep : gov.dreps.lookup target with
        | none => simp [hdrep, modifyDRep]
        | some drep => simp [hdrep]
    rw [hhead]
    cases htarget : e.2.credentialHash32 with
    | none =>
      have hnamed : ∀ key, namedIn (e :: entries) key = namedIn entries key := by
        intro key
        simp [namedIn, htarget]
      have hdangles : dangles gov e = false := by simp [dangles, htarget]
      simpa only [elim_none, hnamed, List.filter_cons, hdangles, Bool.false_eq_true,
        if_false] using ih gov noted
    | some target =>
      obtain ⟨hframe, hdreps, hnoted⟩ := ih (gov.modifyDRep target fun drep =>
        { drep with delegs := insert e.1 drep.delegs })
        (if (gov.dreps.lookup target).isSome then noted else noted ++ [e.1])
      have hsame : dangles (gov.modifyDRep target fun drep =>
          { drep with delegs := insert e.1 drep.delegs }) = dangles gov := by
        funext e'
        refine congrArg (Option.any · _) (funext fun key => ?_)
        rw [lookup_modifyDRep]
        split
        · rw [isNone_map]
        · rfl
      refine ⟨?_, fun key => ?_, ?_⟩
      · rw [elim_some, hframe]
        unfold modifyDRep
        cases gov.dreps.lookup target <;> rfl
      · rw [elim_some, hdreps key, lookup_modifyDRep]
        split
        · next heq =>
          subst heq
          rw [map_map]
          refine congrArg (Option.map · _) (funext fun drep => ?_)
          simp [namedIn, htarget, Finset.insert_union]
        next hne =>
        have hnamed : namedIn (e :: entries) key = namedIn entries key := by
          have hne' : ¬ target = key := fun heq => hne heq.symm
          simp [namedIn, htarget, hne']
        rw [hnamed]
      · rw [elim_some, hnoted, hsame, List.filter_cons]
        cases hdrep : gov.dreps.lookup target with
        | none | some drep => simp [dangles, htarget, hdrep]

theorem mem_delegationEntries {m : FinMap Hash32 DRep} {d : DRep} :
    (c, d) ∈ delegationEntries m ↔ m.lookup c = some d :=
  Listing.mem_entries _

theorem mem_named :
    c ∈ namedIn (delegationEntries gov.voteDelegations) key ↔ gov.votesFor c = some key := by
  simp [namedIn, mem_delegationEntries, votesFor, bind_eq_some_iff]

section
variable (gov : GovernanceState)

/-- The pass starts from empty lists. -/
def cleared : GovernanceState :=
  { gov with dreps := gov.dreps.mapValues fun drep => { drep with delegs := ∅ } }

theorem lookup_dreps_updateDRepDelegations (key : Hash32) :
    gov.updateDRepDelegations.dreps.lookup key = (gov.dreps.lookup key).map fun drep =>
      { drep with delegs := namedIn (delegationEntries gov.voteDelegations) key } := by
  obtain ⟨_, hdreps, _⟩ := foldl_reindex (delegationEntries gov.voteDelegations) gov.cleared []
  refine (hdreps key).trans ?_
  rw [cleared, lookup_mapValues, map_map]
  refine congrArg (Option.map · _) (funext fun drep => ?_)
  simp

theorem updateDRepDelegations_frame : gov.updateDRepDelegations = { gov with
      dreps := gov.updateDRepDelegations.dreps
      voteDelegations := gov.updateDRepDelegations.voteDelegations } := by
  obtain ⟨hframe, _, _⟩ := foldl_reindex (delegationEntries gov.voteDelegations) gov.cleared []
  unfold updateDRepDelegations
  dsimp only [cleared] at hframe ⊢
  rw [hframe]

theorem lookup_votes_updateDRepDelegations (c : Hash32) :
    gov.updateDRepDelegations.voteDelegations.lookup c =
      (gov.voteDelegations.lookup c).filter fun d => !gov.dangles (c, d) := by
  obtain ⟨hframe, _, hnoted⟩ := foldl_reindex (delegationEntries gov.voteDelegations) gov.cleared []
  have hdangles : dangles gov.cleared = dangles gov := by
    funext e
    refine congrArg (Option.any · _) (funext fun key => ?_)
    rw [cleared, lookup_mapValues, isNone_map]
  have hmem : ∀ c, c ∈ ((delegationEntries gov.voteDelegations).filter (dangles gov)).map (·.1) ↔
      ∃ d, gov.voteDelegations.lookup c = some d ∧ gov.dangles (c, d) = true := by
    intro c
    simp only [List.mem_map, List.mem_filter, Prod.exists, mem_delegationEntries]
    constructor
    · rintro ⟨c', d, hd, rfl⟩
      exact ⟨d, hd⟩
    · rintro ⟨d, hd⟩
      exact ⟨c, d, hd, rfl⟩
  unfold updateDRepDelegations
  rw [hdangles] at hnoted
  dsimp only [cleared] at hframe hnoted ⊢
  rw [hframe, hnoted, List.nil_append, Journal.lookup_eraseAll]
  cases hd : gov.voteDelegations.lookup c with
  | none => split <;> rfl
  | some d =>
  by_cases hdangle : gov.dangles (c, d) = true
  · rw [if_pos ((hmem c).2 ⟨d, hd, hdangle⟩)]
    simp [hdangle, Option.filter]
  rw [if_neg]
  · simp [hdangle, Option.filter]
  · rintro hc
    obtain ⟨d', hd', hdangle'⟩ := (hmem c).1 hc
    obtain rfl := some.inj (hd.symm.trans hd')
    exact hdangle hdangle'

theorem votesFor_updateDRepDelegations (c key : Hash32) :
    gov.updateDRepDelegations.votesFor c = some key ↔
      gov.votesFor c = some key ∧ (gov.dreps.lookup key).isSome := by
  unfold votesFor
  rw [lookup_votes_updateDRepDelegations]
  cases gov.voteDelegations.lookup c with
  | none => simp
  | some d =>
  cases htarget : d.credentialHash32 with
  | none => simp [Option.filter, dangles, htarget]
  | some target =>
  cases hdrep : gov.dreps.lookup target with
  | none =>
    have hnot : ∀ key, ¬ (target = key ∧ (gov.dreps.lookup key).isSome) := by
      rintro _ ⟨rfl, hsome⟩
      rw [hdrep] at hsome
      cases hsome
    simpa [Option.filter, dangles, htarget, hdrep] using hnot key
  | some drep =>
    have hsome : ∀ key, target = key → (gov.dreps.lookup key).isSome := by
      rintro _ rfl
      rw [hdrep]
      rfl
    simpa [Option.filter, dangles, htarget, hdrep] using hsome key

/-- The lists are right after they are built, whatever the state before. -/
theorem indexed_updateDRepDelegations : gov.updateDRepDelegations.Indexed where
  mem_iff := by
    intro key delegs hdelegs c
    rw [delegsOf, lookup_dreps_updateDRepDelegations, map_map] at hdelegs
    obtain ⟨drep, hdrep, rfl⟩ := map_eq_some_iff.1 hdelegs
    rw [votesFor_updateDRepDelegations, hdrep]
    exact mem_named.trans (and_iff_left rfl).symm
  isSome := by
    intro c key hvote
    rw [delegsOf, lookup_dreps_updateDRepDelegations, map_map, isSome_map]
    exact ((votesFor_updateDRepDelegations gov c key).1 hvote).2

end

/-- Lists that are right stay as they are when they are built again. -/
theorem Indexed.updateDRepDelegations_eq (h : gov.Indexed) : gov.updateDRepDelegations = gov := by
  have hdreps : gov.updateDRepDelegations.dreps = gov.dreps := by
    refine ext_lookup fun key => ?_
    rw [lookup_dreps_updateDRepDelegations]
    cases hdrep : gov.dreps.lookup key with
    | none => rfl
    | some drep =>
    have hdelegs : namedIn (delegationEntries gov.voteDelegations) key = drep.delegs := by
      ext c
      rw [mem_named]
      refine (h.mem_iff ?_ c).symm
      rw [delegsOf, hdrep]
      rfl
    rw [hdelegs]
    rfl
  have hvotes : gov.updateDRepDelegations.voteDelegations = gov.voteDelegations := by
    refine ext_lookup fun c => ?_
    rw [lookup_votes_updateDRepDelegations]
    cases hd : gov.voteDelegations.lookup c with
    | none => rfl
    | some d =>
    have hdangle : gov.dangles (c, d) = false := by
      rw [dangles, any_eq_false]
      intro key hkey
      have hvote : gov.votesFor c = some key := by rw [votesFor, hd]; exact hkey
      have hsome := h.isSome hvote
      rw [delegsOf, isSome_map] at hsome
      simpa using hsome
    simp [Option.filter, hdangle]
  rw [updateDRepDelegations_frame, hdreps, hvotes]

end GovernanceState

/-! ## Along the certificates -/

namespace SubStates

/-- The rules for a valid certificate that are about DReps: a DRep that registers is not registered,
and a vote goes to a DRep that is registered or built in. -/
def meetsDRepRules (s : SubStates) : Certificate → Bool
  | .regDRep c _ _ => (s.gov.dreps.lookup c.toTypedHash32).isNone
  | .voteDelegation _ drep => votable drep
  | .stakeVoteDelegation _ _ drep => votable drep
  | .regStakeVoteDeleg _ _ drep _ => votable drep
  | .voteRegDeleg _ drep _ => votable drep
  | _ => true
where
  votable (drep : DRep) : Bool :=
    drep.credentialHash32.all fun key => (s.gov.dreps.lookup key).isSome

/-- A certificate with the place it is applied at. -/
structure CertStep where
  ctx : RuleContext
  certIndex : Nat
  cert : Certificate

def applyStep (s : SubStates) (step : CertStep) : SubStates :=
  s.applyCert step.ctx (step.cert, step.certIndex)

/-- Each certificate meets the rules in the state it is applied to. -/
def validAlong : SubStates → List CertStep → Bool
  | _, [] => true
  | s, step :: steps => s.meetsDRepRules step.cert && validAlong (s.applyStep step) steps

variable {s : SubStates}

section
variable (h : s.gov.Indexed)
include h

theorem indexed_delegateVote
    (hversion : 10 ≤ s.epochs.protocolParams.protocolVersionMajor) (c : Credential) {drep : DRep}
    (hdrep : meetsDRepRules.votable s drep = true) : (s.delegateVote c drep).gov.Indexed := by
  have hpreserve : decide (s.epochs.protocolParams.protocolVersionMajor < 10) = false :=
    decide_eq_false (by omega)
  unfold delegateVote
  rw [hpreserve]
  refine GovernanceState.Indexed.delegateVote h c.toTypedHash32 fun key hkey => ?_
  rw [meetsDRepRules.votable, hkey] at hdrep
  exact hdrep

theorem indexed_registerDRep (ctx : RuleContext) {c : Credential}
    (hnew : (s.gov.dreps.lookup c.toTypedHash32).isNone) (deposit : Nat)
    (anchor : Option Anchor) : (s.registerDRep ctx c deposit anchor).gov.Indexed := by
  have hnone : s.gov.delegsOf c.toTypedHash32 = none := by
    rw [delegsOf, isNone_iff_eq_none.1 hnew]
    rfl
  have hregistered := register h hnone
  rw [← delegsOf_insert s.gov c.toTypedHash32
    ⟨c, deposit, anchor, ctx.currentEpoch, s.drepExpiry ctx, true, ∅⟩] at hregistered
  exact hregistered

theorem indexed_deregisterDRep (c : Credential) : (s.deregisterDRep c).gov.Indexed := by
  unfold SubStates.deregisterDRep
  cases hdrep : s.gov.dreps.lookup c.toTypedHash32 with
  | none => exact h
  | some drep =>
  have hdelegs : s.gov.delegsOf c.toTypedHash32 = some drep.delegs := by
    rw [delegsOf, hdrep]
    rfl
  have hdissolved := dissolve h hdelegs
  rw [← delegsOf_erase, ← votesFor_retain] at hdissolved
  exact hdissolved

theorem indexed_updateDRep (ctx : RuleContext) (c : Credential)
    (anchor : Option Anchor) : (s.updateDRep ctx c anchor).gov.Indexed := by
  unfold SubStates.updateDRep GovernanceState.Indexed
  have hdelegs : ∀ f, (∀ drep, (f drep).delegs = drep.delegs) →
      (s.gov.modifyDRep c.toTypedHash32 f).delegsOf = s.gov.delegsOf := by
    intro f hf
    funext key
    rw [delegsOf_modifyDRep _ (g := fun delegs => delegs) hf, map_id']
    split <;> rfl
  have hvotes : ∀ f, (s.gov.modifyDRep c.toTypedHash32 f).votesFor = s.gov.votesFor := by
    intro f
    unfold votesFor
    rw [voteDelegations_modifyDRep]
  rw [hvotes, hdelegs]
  · exact h
  · exact fun _ => rfl

/-- A certificate that meets the rules keeps the lists right. -/
theorem indexed_applyStep
    (hversion : 10 ≤ s.epochs.protocolParams.protocolVersionMajor) (step : CertStep)
    (hvalid : s.meetsDRepRules step.cert = true) : (s.applyStep step).gov.Indexed := by
  obtain ⟨ctx, certIndex, cert⟩ := step
  cases cert with
  | stakeDeregistration c | conwayStakeDeregistration c refund =>
    exact GovernanceState.Indexed.undelegateVote h c.toTypedHash32
  | stakeRegistration c =>
    have hgov : (s.recordPointer ctx certIndex c).gov = s.gov := by
      unfold recordPointer
      split <;> rfl
    change (s.recordPointer ctx certIndex c).gov.Indexed
    rw [hgov]
    exact h
  | poolRegistration params =>
    have hgov : (s.registerPool params).gov = s.gov := by
      unfold registerPool
      split <;> rfl
    change (s.registerPool params).gov.Indexed
    rw [hgov]
    exact h
  | regDRep c deposit anchor => exact indexed_registerDRep h ctx hvalid deposit anchor
  | unregDRep c refund => exact indexed_deregisterDRep h c
  | updateDRep c anchor => exact indexed_updateDRep h ctx c anchor
  | voteDelegation c drep => exact indexed_delegateVote h hversion c hvalid
  | stakeVoteDelegation c poolHash drep =>
    exact indexed_delegateVote (s := s.delegateStake c poolHash) h hversion c hvalid
  | regStakeVoteDeleg c poolHash drep deposit =>
    exact indexed_delegateVote (s := (s.registerStakeKey c deposit).delegateStake c poolHash) h
      hversion c hvalid
  | voteRegDeleg c drep deposit =>
    exact indexed_delegateVote (s := s.registerStakeKey c deposit) h hversion c hvalid
  | _ => exact h

end

theorem epochs_applyStep (step : CertStep) : (s.applyStep step).epochs = s.epochs :=
  congrArg CoinView.epochs (view_applyCert step.ctx s (step.cert, step.certIndex))

/-- The lists stay right along certificates that meet the rules. -/
theorem indexed_applySteps (h : s.gov.Indexed)
    (hversion : 10 ≤ s.epochs.protocolParams.protocolVersionMajor) {steps : List CertStep}
    (hvalid : s.validAlong steps = true) : (steps.foldl applyStep s).gov.Indexed := by
  induction steps generalizing s with
  | nil => exact h
  | cons step steps ih =>
    rw [validAlong, Bool.and_eq_true] at hvalid
    refine ih (indexed_applyStep h hversion step hvalid.1) ?_ hvalid.2
    rw [epochs_applyStep]
    exact hversion

/-- The hard fork to version 10 builds the lists anew. -/
def reindexed (s : SubStates) : SubStates := { s with gov := s.gov.updateDRepDelegations }

/-- From the state the hard fork leaves, whatever the one before it, the list of each registered
DRep holds exactly the credentials whose delegation names it, and no delegation names a DRep that is
not registered, after any certificates that are valid where they are applied. Building the lists
again changes nothing. -/
theorem drep_index_two_way (s : SubStates)
    (hversion : 10 ≤ s.epochs.protocolParams.protocolVersionMajor) (steps : List CertStep)
    (hvalid : s.reindexed.validAlong steps = true) :
    (steps.foldl applyStep s.reindexed).gov.Indexed ∧
      s.gov.updateDRepDelegations.updateDRepDelegations = s.gov.updateDRepDelegations := by
  have hstart : s.reindexed.gov.Indexed := indexed_updateDRepDelegations s.gov
  exact ⟨indexed_applySteps hstart hversion hvalid, hstart.updateDRepDelegations_eq⟩

/-- Parameters of version 10. -/
def versionTen : ProtocolParameters where
  protocolVersionMajor := 10
  protocolVersionMinor := 0
  keyDeposit := 2
  poolDeposit := 500
  drepDeposit := 500
  govActionDeposit := 1000
  collateralPercentage := 150
  maxTxExUnits := ⟨0, 0⟩

/-- A state of version 10 with lists that drifted: the DRep `1` does not list its credential `5`, and
the credential `6` names a DRep that is not registered. -/
def drifted : SubStates where
  utxo := { utxoSet := ∅ }
  gov := {
    dreps := insert (verificationKey 1).toTypedHash32
      ⟨.verificationKey 1, 0, none, 0, 0, true, {9}⟩ ∅
    voteDelegations := insert 5 (.keyHash (verificationKey 1).toTypedHash32)
      (insert 6 (.keyHash 2) ∅) }
  epochs := { protocolParams := versionTen }

/-- Another DRep registers, takes over a vote, and the first one leaves. -/
def afterDrift : List CertStep :=
  [.regDRep (.script 2) 0 none, .voteDelegation (.verificationKey 7) (.scriptHash 2),
    .voteDelegation (.verificationKey 7)
      (.keyHash (verificationKey 1).toTypedHash32),
    .unregDRep (.verificationKey 1) 0].map fun cert =>
      { ctx := { params := versionTen, currentSlot := 0, currentEpoch := 0, txIndex := 0 },
        certIndex := 0, cert }

theorem drift_is_repaired :
    ¬ drifted.gov.Indexed ∧ (afterDrift.foldl applyStep drifted.reindexed).gov.Indexed := by
  refine ⟨fun h => ?_, (drep_index_two_way drifted (by decide) afterDrift (by decide +kernel)).1⟩
  have hsome := h.isSome (c := 6) (d := 2) (by decide +kernel)
  revert hsome
  decide +kernel

end SubStates

end Dugite
