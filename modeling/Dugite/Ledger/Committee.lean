import Dugite.Ledger.ConwayTx

/-!
# The books of the committee

Certificates authorise a hot key for a cold one and resign cold keys; `prune_committee_state`
drops at every epoch boundary what is not of a member. The marks of script hot credentials are
documented, dropped and read by hot key, but the certificate rule makes them under the cold key.
The two agree where a script is authorised by nobody but itself (`Matched`), and nowhere else
(`prunings_exact`).
-/

namespace Dugite

open SubStates Credential

namespace GovernanceState

variable (gov : GovernanceState)

/-- The hot keys that some cold keys have authorised. -/
def hotKeysOf (colds : Finset Hash32) : Finset Hash32 :=
  colds.biUnion fun cold => (gov.committeeHotKeys.lookup cold).toFinset

/-- `prune_committee_state`. -/
def pruneCommitteeState : GovernanceState :=
  let members := gov.committeeExpiration.keys
  let staleHot := gov.hotKeysOf (gov.committeeHotKeys.keys \ members)
  let retained := { gov with
    committeeHotKeys := gov.committeeHotKeys.retain fun cold _ => cold ∈ members }
  -- a mark stays if a member has authorised the same hot key
  let liveHot := retained.hotKeysOf retained.committeeHotKeys.keys
  let pruned := if staleHot.Nonempty then
      { retained with scriptCommitteeHotCredentials :=
          gov.scriptCommitteeHotCredentials \ (staleHot \ liveHot) }
    else gov
  { pruned with committeeResigned := gov.committeeResigned.retain fun cold _ => cold ∈ members }

/-- The action would make the credential with this key a member. -/
def proposesMember (key : Hash32) : GovAction → Prop
  | .updateCommittee _ _ membersToAdd _ => ∃ c ∈ membersToAdd.keys, c.toTypedHash32 = key
  | _ => False

/-- A member, or one that an open proposal would make a member. -/
def Seated (key : Hash32) : Prop :=
  key ∈ gov.committeeExpiration.keys ∨
    ∃ id p, gov.proposals.lookup id = some p ∧ proposesMember key p.procedure.govAction

/-- Somebody who is not a member has authorised this hot key, and no member has. -/
def Abandoned (hot : Hash32) : Prop :=
  (∃ cold ∉ gov.committeeExpiration.keys, gov.committeeHotKeys.lookup cold = some hot) ∧
    ∀ cold ∈ gov.committeeExpiration.keys, gov.committeeHotKeys.lookup cold ≠ some hot

/-- What pruning should leave: nothing but entries of members, proposed ones included, and all
those of members. A mark is of those whose current hot key it is. -/
structure PrunedTo (gov' : GovernanceState) : Prop where
  hotKeys : ∀ cold, (gov'.committeeHotKeys.lookup cold).isSome → gov.Seated cold
  resigned : ∀ cold, (gov'.committeeResigned.lookup cold).isSome → gov.Seated cold
  scripts : ∀ hot ∈ gov'.scriptCommitteeHotCredentials, ∃ cold, gov.Seated cold ∧
    gov.committeeHotKeys.lookup cold = some hot
  kept : ∀ cold ∈ gov.committeeExpiration.keys,
    gov'.committeeHotKeys.lookup cold = gov.committeeHotKeys.lookup cold ∧
      gov'.committeeResigned.lookup cold = gov.committeeResigned.lookup cold ∧
      ∀ hash, gov.committeeHotKeys.lookup cold = some (script hash).toTypedHash32 →
        (script hash).toTypedHash32 ∈ gov'.scriptCommitteeHotCredentials

/-- The marks are those of the script hot keys, each of which is its own cold key. -/
structure Matched : Prop where
  marked : ∀ key ∈ gov.scriptCommitteeHotCredentials,
    (∃ hash, key = (script hash).toTypedHash32) ∧ gov.committeeHotKeys.lookup key = some key
  own : ∀ cold hash, gov.committeeHotKeys.lookup cold = some (script hash).toTypedHash32 →
    cold = (script hash).toTypedHash32 ∧ cold ∈ gov.scriptCommitteeHotCredentials

variable {hot : Hash32}

theorem mem_hotKeysOf {colds : Finset Hash32} :
    hot ∈ gov.hotKeysOf colds ↔ ∃ cold ∈ colds, gov.committeeHotKeys.lookup cold = some hot := by
  simp [hotKeysOf]

theorem lookup_retain_members {V : Type} (m : FinMap Hash32 V) (key : Hash32) :
    (m.retain fun cold _ => cold ∈ gov.committeeExpiration.keys).lookup key =
      if key ∈ gov.committeeExpiration.keys then m.lookup key else none := by
  rw [FinMap.lookup_retain]
  split <;> cases m.lookup key <;> simp [*]

theorem stale_iff : hot ∈ gov.hotKeysOf (gov.committeeHotKeys.keys \ gov.committeeExpiration.keys) ↔
      ∃ cold ∉ gov.committeeExpiration.keys, gov.committeeHotKeys.lookup cold = some hot := by
  rw [mem_hotKeysOf]
  refine exists_congr fun cold => ?_
  rw [Finset.mem_sdiff, FinMap.mem_keys]
  constructor
  · exact fun h => ⟨h.1.2, h.2⟩
  · exact fun h => ⟨⟨by rw [h.2]; rfl, h.1⟩, h.2⟩

theorem live_iff {m : FinMap Hash32 Hash32}
    (hm : m = gov.committeeHotKeys.retain fun cold _ => cold ∈ gov.committeeExpiration.keys) :
    hot ∈ hotKeysOf { gov with committeeHotKeys := m } m.keys ↔
      ∃ cold ∈ gov.committeeExpiration.keys, gov.committeeHotKeys.lookup cold = some hot := by
  have hlookup : ∀ cold, m.lookup cold = some hot ↔
      cold ∈ gov.committeeExpiration.keys ∧ gov.committeeHotKeys.lookup cold = some hot := by
    intro cold
    rw [hm, lookup_retain_members]
    split <;> simp [*]
  rw [mem_hotKeysOf]
  refine exists_congr fun cold => ?_
  rw [hlookup, FinMap.mem_keys]
  exact and_iff_right_of_imp fun h => by rw [(hlookup cold).2 h]; rfl

theorem lookup_committeeHotKeys_prune (key : Hash32) :
    gov.pruneCommitteeState.committeeHotKeys.lookup key =
      if key ∈ gov.committeeExpiration.keys then gov.committeeHotKeys.lookup key else none := by
  unfold pruneCommitteeState
  dsimp only
  split
  · exact lookup_retain_members gov _ key
  next hnone =>
  split
  · rfl
  next hkey =>
  rw [Option.eq_none_iff_forall_ne_some]
  intro hot hlookup
  exact hnone ⟨hot, gov.stale_iff.2 ⟨key, hkey, hlookup⟩⟩

theorem mem_scripts_prune : hot ∈ gov.pruneCommitteeState.scriptCommitteeHotCredentials ↔
      hot ∈ gov.scriptCommitteeHotCredentials ∧ ¬gov.Abandoned hot := by
  unfold pruneCommitteeState Abandoned
  rw [← stale_iff]
  dsimp only
  split
  · rw [Finset.mem_sdiff, Finset.mem_sdiff, gov.live_iff rfl]
    push Not
    exact Iff.rfl
  · next hnone => exact (and_iff_left fun h => hnone ⟨hot, h.1⟩).symm

namespace Matched

variable {gov} (h : gov.Matched)
include h

/-- Pruning leaves the marks of members. -/
theorem mem_prune_iff : hot ∈ gov.pruneCommitteeState.scriptCommitteeHotCredentials ↔
    hot ∈ gov.scriptCommitteeHotCredentials ∧ hot ∈ gov.committeeExpiration.keys := by
  rw [mem_scripts_prune]
  refine and_congr_right fun hmark => ?_
  obtain ⟨⟨hash, rfl⟩, hself⟩ := h.marked hot hmark
  refine ⟨fun hlive => by_contra fun hout => hlive ⟨⟨_, hout, hself⟩, fun cold hmember hcold => ?_⟩,
    fun hmember habandoned => habandoned.2 _ hmember hself⟩
  exact hout ((h.own cold hash hcold).1 ▸ hmember)

theorem prune : gov.pruneCommitteeState.Matched where
  marked key hkey := by
    obtain ⟨hmark, hmember⟩ := h.mem_prune_iff.1 hkey
    rw [lookup_committeeHotKeys_prune, if_pos hmember]
    exact h.marked key hmark
  own cold hash hcold := by
    rw [lookup_committeeHotKeys_prune] at hcold
    split at hcold
    · next hmember =>
      obtain ⟨heq, hmark⟩ := h.own cold hash hcold
      exact ⟨heq, h.mem_prune_iff.2 ⟨hmark, hmember⟩⟩
    · cases hcold

theorem prunedTo : gov.PrunedTo gov.pruneCommitteeState where
  hotKeys cold hsome := by
    rw [gov.lookup_committeeHotKeys_prune] at hsome
    split at hsome
    · exact .inl ‹_›
    · cases hsome
  resigned cold hsome := by
    rw [show gov.pruneCommitteeState.committeeResigned.lookup cold = _ from
      gov.lookup_retain_members _ cold] at hsome
    split at hsome
    · exact .inl ‹_›
    · cases hsome
  scripts hot hhot := by
    obtain ⟨hmark, hmember⟩ := h.mem_prune_iff.1 hhot
    exact ⟨hot, .inl hmember, (h.marked hot hmark).2⟩
  kept cold hmember := by
    refine ⟨by rw [gov.lookup_committeeHotKeys_prune, if_pos hmember],
      (gov.lookup_retain_members _ cold).trans (if_pos hmember), fun hash hcold => ?_⟩
    obtain ⟨rfl, hmark⟩ := h.own cold hash hcold
    exact h.mem_prune_iff.2 ⟨hmark, hmember⟩

end Matched

end GovernanceState

/-! ## Runs of certificates and prunings -/

inductive CommitteeStep where
  | authorise (cold hot : Credential)
  | resign (cold : Credential) (anchor : Option Anchor)
  | prune

def SubStates.committeeStep (s : SubStates) : CommitteeStep → SubStates
  | .authorise cold hot => s.authoriseHotKey cold hot
  | .resign cold anchor => s.resignColdKey cold anchor
  | .prune => { s with gov := s.gov.pruneCommitteeState }

/-- A script is authorised as hot credential by itself only. -/
def CommitteeStep.OwnScript : CommitteeStep → Prop
  | .authorise cold (.script hash) => cold = .script hash
  | _ => True

theorem GovernanceState.Matched.step {s : SubStates} (h : s.gov.Matched) {step : CommitteeStep}
    (hstep : step.OwnScript) : (s.committeeStep step).gov.Matched := by
  match step, hstep with
  | .resign .., _ => exact ⟨h.marked, h.own⟩
  | .prune, _ => exact h.prune
  | .authorise cold (.script hash), hown =>
    obtain rfl : cold = .script hash := hown
    refine ⟨fun key hkey => ?_, fun other hash' hother => ?_⟩
    · rw [committeeStep, authoriseHotKey, FinMap.lookup_insert_ite]
      rcases Finset.mem_insert.1 hkey with rfl | hkey
      · exact ⟨⟨hash, rfl⟩, if_pos rfl⟩
      · refine ⟨(h.marked key hkey).1, ?_⟩
        split
        · next heq => rw [heq]
        · exact (h.marked key hkey).2
    · rw [committeeStep, authoriseHotKey, FinMap.lookup_insert_ite] at hother
      split at hother
      · next heq =>
        rw [← Option.some.inj hother]
        exact ⟨heq, Finset.mem_insert.2 (.inl heq)⟩
      · exact ⟨(h.own _ _ hother).1, Finset.mem_insert_of_mem (h.own _ _ hother).2⟩
  | .authorise cold (.verificationKey hash), _ =>
    refine ⟨fun key hkey => ?_, fun other hash' hother => ?_⟩
    · obtain ⟨hne, hkey⟩ := Finset.mem_erase.1 hkey
      rw [committeeStep, authoriseHotKey, FinMap.lookup_insert_ite, if_neg hne]
      exact h.marked key hkey
    · rw [committeeStep, authoriseHotKey, FinMap.lookup_insert_ite] at hother
      split at hother
      · cases toTypedHash32_injective (Option.some.inj hother)
      · next hne =>
        exact ⟨(h.own _ _ hother).1, Finset.mem_erase.2 ⟨hne, (h.own _ _ hother).2⟩⟩

/-- Pruning would leave the right entries at every moment of a run. -/
def PrunedThroughout (s : SubStates) (steps : List CommitteeStep) : Prop :=
  ∀ k, ((steps.take k).foldl committeeStep s).gov.PrunedTo
    ((steps.take k).foldl committeeStep s).gov.pruneCommitteeState

/-- No hot credential is the cold credential of another authorisation. -/
def ColdsApart (steps : List CommitteeStep) : Prop :=
  ∀ cold hot cold' hot', .authorise cold hot ∈ steps → .authorise cold' hot' ∈ steps →
    hot = cold' → cold = cold'

/-- The hot keys come from these certificates. -/
def HotKeysFrom (all : List CommitteeStep) (s : SubStates) : Prop :=
  ∀ key key', s.gov.committeeHotKeys.lookup key = some key' → ∃ cold hot,
    .authorise cold hot ∈ all ∧ key = cold.toTypedHash32 ∧ key' = hot.toTypedHash32

section
variable {s : SubStates} {all : List CommitteeStep}

theorem HotKeysFrom.step {step : CommitteeStep} (h : HotKeysFrom all s) (hmem : step ∈ all) :
    HotKeysFrom all (s.committeeStep step) := by
  cases step with
  | resign cold anchor => exact h
  | prune =>
    intro key key' hkey
    rw [committeeStep, GovernanceState.lookup_committeeHotKeys_prune] at hkey
    split at hkey
    · exact h key key' hkey
    · cases hkey
  | authorise cold hot =>
    intro key key' hkey
    rw [committeeStep, authoriseHotKey, FinMap.lookup_insert_ite] at hkey
    split at hkey
    · exact ⟨cold, hot, hmem, ‹_›, (Option.some.inj hkey).symm⟩
    · exact h key key' hkey

/-- A script that another credential authorises leaves a mark of nobody. -/
theorem ownScript_of_prunedTo (hapart : ColdsApart all) {step : CommitteeStep}
    (h : HotKeysFrom all s) (hmem : step ∈ all)
    (hpruned : (s.committeeStep step).gov.PrunedTo (s.committeeStep step).gov.pruneCommitteeState) :
    step.OwnScript := by
  match step, hmem, hpruned with
  | .resign .., _, _ | .prune, _, _ | .authorise _ (.verificationKey _), _, _ => trivial
  | .authorise cold (.script hash), hmem, hpruned =>
    -- whoever has the cold key as its hot key is this authorisation
    have hnobody : ∀ key, (s.authoriseHotKey cold (.script hash)).gov.committeeHotKeys.lookup key =
        some cold.toTypedHash32 → cold = .script hash := by
      intro key hkey
      obtain ⟨cold', hot, hmem', rfl, hhot⟩ := h.step hmem key _ hkey
      obtain rfl := toTypedHash32_injective hhot
      obtain rfl := hapart _ _ _ _ hmem' hmem rfl
      rw [authoriseHotKey, FinMap.lookup_insert_ite, if_pos rfl] at hkey
      exact (toTypedHash32_injective (Option.some.inj hkey)).symm
    by_contra hother
    have hmark : ¬(s.authoriseHotKey cold (.script hash)).gov.Abandoned cold.toTypedHash32 := by
      rintro ⟨⟨key, -, hkey⟩, -⟩
      exact hother (hnobody key hkey)
    obtain ⟨key, -, hkey⟩ := hpruned.scripts cold.toTypedHash32
      ((GovernanceState.mem_scripts_prune _).2 ⟨Finset.mem_insert_self _ _, hmark⟩)
    exact hother (hnobody key hkey)

theorem ownScript_of_prunedThroughout (hapart : ColdsApart all) (h : HotKeysFrom all s)
    {steps : List CommitteeStep} (hsteps : steps ⊆ all) (hpruned : PrunedThroughout s steps) :
    ∀ step ∈ steps, step.OwnScript := by
  induction steps generalizing s with
  | nil => exact fun _ hstep => by cases hstep
  | cons step steps ih =>
    have hmem := hsteps List.mem_cons_self
    refine List.forall_mem_cons.2 ⟨ownScript_of_prunedTo hapart h hmem (hpruned 1), ?_⟩
    exact ih (h.step hmem) (fun _ hx => hsteps (List.mem_cons_of_mem _ hx))
      fun k => hpruned (k + 1)

end

/-- From empty books on, prunings leave the right entries if every script that is authorised as a
hot credential is authorised by itself; where no hot credential is the cold one of another
authorisation, only then. -/
theorem prunings_exact (s : SubStates) (hhot : s.gov.committeeHotKeys = ∅)
    (hmarks : s.gov.scriptCommitteeHotCredentials = ∅) (steps : List CommitteeStep) :
    ((∀ step ∈ steps, step.OwnScript) → PrunedThroughout s steps) ∧
      (ColdsApart steps → PrunedThroughout s steps → ∀ step ∈ steps, step.OwnScript) := by
  constructor
  · intro hown k
    have hstart : s.gov.Matched := by
      constructor <;> simp [hhot, hmarks]
    refine (List.foldlRecOn (motive := fun s : SubStates => s.gov.Matched) _ _ hstart
      fun s h step hstep => h.step ?_).prunedTo
    exact hown step (List.mem_of_mem_take hstep)
  · refine fun hapart => ownScript_of_prunedThroughout hapart (fun key key' hkey => ?_)
      (List.Subset.refl _)
    rw [hhot] at hkey
    cases hkey

/-- The committee and nothing in its books. -/
def newCommittee (members : FinMap Hash32 Nat) : SubStates :=
  { ConwayRules.oneDormantEpoch 10 with gov := { committeeExpiration := members } }

/-- A member that is its own script hot credential, and a stranger with a key. -/
theorem own_script_pruned :
    PrunedThroughout (newCommittee (Finmap.singleton (script 1).toTypedHash32 9))
      [.authorise (.script 1) (.script 1), .authorise (.verificationKey 2) (.verificationKey 3),
        .resign (.verificationKey 2) none, .prune] :=
  (prunings_exact _ rfl rfl _).1 (by simp [CommitteeStep.OwnScript])

/-- One member with a key, which authorises a script. -/
def memberMarked : SubStates :=
  (newCommittee (Finmap.singleton (verificationKey 1).toTypedHash32 9)).committeeStep
    (.authorise (.verificationKey 1) (.script 3))

/-- The mark that pruning leaves is not of the hot key. -/
theorem mark_misplaced :
    memberMarked.gov.pruneCommitteeState.scriptCommitteeHotCredentials =
        {(verificationKey 1).toTypedHash32} ∧
      ¬memberMarked.gov.PrunedTo memberMarked.gov.pruneCommitteeState := by
  refine ⟨by decide +kernel, fun h => ?_⟩
  have hkept := (h.kept (verificationKey 1).toTypedHash32 (by decide +kernel)).2.2 3
  revert hkept
  decide +kernel

end Dugite
