import Mathlib.Data.List.TakeWhile
import Dugite.Storage.Ancestry

/-!
# Switching the selected chain is exact

`Joins db ... kept apply point`: the chain `kept ++ apply` ends at the target, `kept` is a beginning
of the selected chain, and `apply` is a path of parent links from `point`, which is the end of
`kept`, or the anchor (the immutable tip, or genesis where that is allowed) when nothing is kept.

A switch finds such a chain with the longest `kept` (`switched_of_some`), and finds one whenever one
exists that rolls back no more blocks than allowed (`isSome_of_joins`). The second holds as long as
the anchor is no stored block, unless it is one of the selected chain: the walk back does not stop
at a stored anchor (`stored_anchor_refused`).
-/

namespace Dugite

open List Option

namespace VolatileDB

/-- What `switch_chain` returns and the database it leaves. -/
def switchOutcome (db : VolatileDB) (newTipHash : Hash32) (immutableAnchor : Option (Hash32 × Nat))
    (maxRollback : Nat) (allowGenesisAnchor : Bool) : Option SwitchPlan × VolatileDB :=
  match db.switchChain newTipHash immutableAnchor maxRollback allowGenesisAnchor with
  | some (plan, switched) => (some plan, switched)
  | none => (none, db)

/-- `kept ++ apply` is a connected chain to the target; `point` is where `apply` starts. -/
structure Joins (db : VolatileDB) (newTipHash : Hash32) (immutableAnchor : Option (Hash32 × Nat))
    (allowGenesisAnchor : Bool) (kept apply : List Hash32) (point : Hash32 × Nat) : Prop where
  keeps : kept <+: db.selectedChain
  linked : LinkedFrom db.blocks point.1 apply
  ends : (kept ++ apply).getLast? = some newTipHash
  meets :
    kept.getLast? = some point.1 ∧ (db.blocks.lookup point.1).map (·.slot) = some point.2 ∨
      kept = [] ∧ (immutableAnchor = some point ∨
        allowGenesisAnchor = true ∧ point = (0, 0) ∧ ∀ root ∈ apply.head?, root ∉ db.unknownPrev)

/-- The plan turns the selected chain of `db` into that of `switched`, a path of parent links to the
target, and the two chains have nothing in common after the intersection. -/
structure Switched (db : VolatileDB) (newTipHash : Hash32) (immutableAnchor : Option (Hash32 × Nat))
    (maxRollback : Nat) (allowGenesisAnchor : Bool) (plan : SwitchPlan) (switched : VolatileDB) :
    Prop where
  selection : ∃ kept, db.selectedChain = kept ++ plan.rollback.reverse ∧
      switched.selectedChain = kept ++ plan.apply ∧
      Joins db newTipHash immutableAnchor allowGenesisAnchor kept plan.apply
        (plan.intersection, plan.intersectionSlot)
  linked : ∃ start, LinkedFrom switched.blocks start switched.selectedChain
  ends : switched.selectedChain.getLast? = some newTipHash
  rolledBack : ∀ x ∈ plan.rollback, x ∉ switched.selectedChain
  applied : ∀ x ∈ plan.apply, x ∉ db.selectedChain
  bounded : plan.rollback.length ≤ maxRollback
  rest : switched = { db with
    selectedChain := switched.selectedChain
    tip := recomputeTip db.blocks switched.selectedChain }

variable {db : VolatileDB} {newTipHash start : Hash32} {immutableAnchor : Option (Hash32 × Nat)}
  {maxRollback : Nat} {allowGenesisAnchor : Bool} {newChain : List Hash32}

/-! ## The two ends of the selected chain -/

theorem selectedChain_eq_append (db : VolatileDB) (newChain : List Hash32) :
    db.selectedChain = db.keptChain newChain ++ (db.rolledBack newChain).reverse := by
  rw [keptChain, rolledBack, ← reverse_append, takeWhile_append_dropWhile, reverse_reverse]

theorem notMem_of_mem_rolledBack {x : Hash32} (hx : x ∈ db.rolledBack newChain) : x ∉ newChain := by
  simpa using mem_takeWhile_imp hx

variable {kept apply : List Hash32} {plan : SwitchPlan} {h : Hash32} {switched : VolatileDB}
  {point : Hash32 × Nat}

/-- What is kept goes at least as far as any block of the new chain. -/
theorem length_le_keptChain (hkept : kept <+: db.selectedChain)
    (hlast : kept.getLast? = some h) (hmem : h ∈ newChain) :
    kept.length ≤ (db.keptChain newChain).length := by
  by_contra hlt
  obtain ⟨rest, hrest⟩ := hkept
  -- the last block of `kept` would be among those rolled back
  have hdrop : h ∈ (db.rolledBack newChain).reverse := by
    have hsplit := hrest.trans (selectedChain_eq_append db newChain)
    obtain ⟨init, rfl⟩ := getLast?_eq_some_iff.1 hlast
    rw [append_assoc] at hsplit
    have hle : (db.keptChain newChain).length ≤ init.length := by
      rw [length_append, length_singleton] at hlt
      omega
    have hpre : db.keptChain newChain <+: init ++ ([h] ++ rest) := by
      rw [hsplit]
      exact prefix_append _ _
    obtain ⟨mid, hmid⟩ := prefix_of_prefix_length_le hpre (prefix_append init _) hle
    rw [← hmid, append_assoc, append_cancel_left_eq] at hsplit
    rw [← hsplit]
    simp
  exact notMem_of_mem_rolledBack (mem_reverse.1 hdrop) hmem

/-! ## What a plan says -/

/-- A plan with a common block. -/
theorem switchPlan_of_common (hlast : (db.keptChain newChain).getLast? = some h) :
    db.switchPlan newChain immutableAnchor allowGenesisAnchor = (db.blocks.lookup h).map fun b =>
        { intersection := h
          intersectionSlot := b.slot
          rollback := db.rolledBack newChain
          apply := newChain.drop (newChain.idxOf h + 1) } := by
  rw [switchPlan, hlast]

/-- A plan without a common block starts at the anchor. -/
theorem switchPlan_of_none (hlast : (db.keptChain newChain).getLast? = none)
    (hplan : db.switchPlan newChain immutableAnchor allowGenesisAnchor = some plan) :
    plan.rollback = db.selectedChain.reverse ∧ plan.apply = newChain ∧
      (∃ h b, newChain.head? = some h ∧ db.blocks.lookup h = some b ∧
        b.prevHash = plan.intersection) ∧
      (immutableAnchor = some (plan.intersection, plan.intersectionSlot) ∨
        allowGenesisAnchor = true ∧ (plan.intersection, plan.intersectionSlot) = (0, 0) ∧
          ∀ root ∈ newChain.head?, root ∉ db.unknownPrev) := by
  simp only [switchPlan, hlast] at hplan
  split at hplan
  · next hgenesis =>
    obtain ⟨hallow, hknown, hprev⟩ := hgenesis
    obtain ⟨h, hhead, hprev⟩ := bind_eq_some_iff.1 hprev
    obtain ⟨b, hb, hzero⟩ := map_eq_some_iff.1 hprev
    cases hplan
    refine ⟨rfl, rfl, ⟨h, b, hhead, hb, hzero⟩, .inr ⟨hallow, rfl, fun root hroot => ?_⟩⟩
    rw [hroot] at hknown
    exact of_decide_eq_true hknown
  · split at hplan
    · next anchorHash anchorSlot prev hprev =>
      split at hplan
      · next heq =>
        obtain ⟨h, hhead, hprev⟩ := bind_eq_some_iff.1 hprev
        obtain ⟨b, hb, hprev⟩ := map_eq_some_iff.1 hprev
        cases hplan
        exact ⟨rfl, rfl, ⟨h, b, hhead, hb, hprev.trans heq.symm⟩, .inl rfl⟩
      · cases hplan
    · cases hplan

/-- The plan of an accepted switch, and what it leaves. -/
theorem plan_of_some (h : db.switchChain newTipHash immutableAnchor maxRollback allowGenesisAnchor =
      some (plan, switched)) :
    db.walkChainBack newTipHash ≠ [] ∧
      db.switchPlan (db.walkChainBack newTipHash) immutableAnchor allowGenesisAnchor = some plan ∧
      plan.rollback.length ≤ maxRollback ∧
      switched = { db with
        selectedChain := db.keptChain (db.walkChainBack newTipHash) ++ plan.apply
        tip := recomputeTip db.blocks
          (db.keptChain (db.walkChainBack newTipHash) ++ plan.apply) } := by
  rw [switchChain] at h
  split at h
  · cases h
  next hne =>
  split at h
  · cases h
  next plan' hplan =>
  split at h
  · cases h
  next hle =>
  cases h
  exact ⟨hne, hplan, Nat.not_lt.1 hle, rfl⟩

theorem isSome_of_plan (hne : db.walkChainBack newTipHash ≠ [])
    (hplan : db.switchPlan (db.walkChainBack newTipHash) immutableAnchor allowGenesisAnchor =
      some plan) (hle : plan.rollback.length ≤ maxRollback) :
    (db.switchChain newTipHash immutableAnchor maxRollback allowGenesisAnchor).isSome := by
  rw [switchChain]
  rw [if_neg hne, hplan]
  dsimp only
  rw [if_neg (Nat.not_lt.2 hle)]
  rfl

/-! ## A plan is right -/

/-- A plan rolls back what is not kept. -/
theorem rollback_of_plan
    (hplan : db.switchPlan newChain immutableAnchor allowGenesisAnchor = some plan) :
    plan.rollback = db.rolledBack newChain := by
  cases hlast : (db.keptChain newChain).getLast? with
  | some h =>
    rw [switchPlan_of_common hlast] at hplan
    obtain ⟨b, -, rfl⟩ := map_eq_some_iff.1 hplan
    rfl
  | none =>
    have hall := selectedChain_eq_append db newChain
    rw [getLast?_eq_none_iff.1 hlast, nil_append] at hall
    rw [(switchPlan_of_none hlast hplan).1, hall, reverse_reverse]

theorem joins_of_plan (hacyclic : Acyclic db.blocks) (hne : db.walkChainBack newTipHash ≠ [])
    (hplan : db.switchPlan (db.walkChainBack newTipHash) immutableAnchor allowGenesisAnchor =
      some plan) :
    (∀ x ∈ plan.apply, x ∈ db.walkChainBack newTipHash) ∧
      Joins db newTipHash immutableAnchor allowGenesisAnchor
        (db.keptChain (db.walkChainBack newTipHash)) plan.apply
        (plan.intersection, plan.intersectionSlot) := by
  obtain ⟨root, hroot, -⟩ := exists_root hacyclic newTipHash
  have hends : (db.keptChain (db.walkChainBack newTipHash) ++ plan.apply).getLast? =
      some newTipHash := by
    rw [keptChain_append_apply hplan]
    exact chainThrough_getLast hne
  have hkeeps : db.keptChain (db.walkChainBack newTipHash) <+: db.selectedChain :=
    keptChain_isPrefix _
  cases hlast : (db.keptChain (db.walkChainBack newTipHash)).getLast? with
  | some h =>
    have hmem := keptChain_subset hlast
    rw [switchPlan_of_common hlast] at hplan
    obtain ⟨b, hb, rfl⟩ := map_eq_some_iff.1 hplan
    refine ⟨fun x hx => mem_of_mem_drop hx, hkeeps, hroot.drop_idxOf hmem, hends, ?_⟩
    exact .inl ⟨hlast, by rw [hb]; rfl⟩
  | none =>
    obtain ⟨-, happly, ⟨h, b, hhead, hb, hprev⟩, hanchor⟩ := switchPlan_of_none hlast hplan
    refine ⟨fun x hx => happly ▸ hx, hkeeps, ?_, hends, .inr ⟨getLast?_eq_none_iff.1 hlast, ?_⟩⟩
    · have hstart : root = plan.intersection := by
        obtain ⟨y, rest, hchain⟩ := exists_cons_of_ne_nil hne
        rw [hchain] at hhead hroot
        cases hhead
        exact (hroot.anchor_eq hb).trans hprev
      rw [happly, ← hstart]
      exact hroot
    · rw [happly]
      exact hanchor

theorem switched_of_some (hacyclic : Acyclic db.blocks)
    (hchain : LinkedFrom db.blocks start db.selectedChain)
    (h : db.switchChain newTipHash immutableAnchor maxRollback allowGenesisAnchor =
      some (plan, switched)) :
    Switched db newTipHash immutableAnchor maxRollback allowGenesisAnchor plan switched := by
  obtain ⟨hne, hplan, hbounded, rfl⟩ := plan_of_some h
  obtain ⟨happly, hjoins⟩ := joins_of_plan hacyclic hne hplan
  have hrollback := rollback_of_plan hplan
  set newChain := db.walkChainBack newTipHash
  set kept := db.keptChain newChain
  have hsplit : db.selectedChain = kept ++ plan.rollback.reverse := by
    rw [hrollback]
    exact selectedChain_eq_append db newChain
  have hkept := hchain.of_isPrefix hjoins.keeps
  have hgone : ∀ x ∈ plan.rollback, x ∉ newChain := by
    intro x hx
    rw [hrollback] at hx
    exact notMem_of_mem_rolledBack hx
  refine ⟨⟨kept, hsplit, rfl, hjoins⟩, ?_, hjoins.ends, ?_, ?_, hbounded, rfl⟩
  · rcases hjoins.meets with ⟨hlast, -⟩ | ⟨hnil, -⟩
    · refine ⟨start, LinkedFrom.append_iff.2 ⟨hkept, ?_⟩⟩
      rw [hlast]
      exact hjoins.linked
    · refine ⟨plan.intersection, ?_⟩
      rw [hnil]
      exact hjoins.linked
  · intro x hx hmem
    rcases mem_append.1 hmem with hmem | hmem
    · -- the selected chain has no repetition
      have hnodup := hchain.nodup_of_acyclic hacyclic
      rw [hsplit, nodup_append] at hnodup
      exact hnodup.2.2 x hmem x (mem_reverse.2 hx) rfl
    · exact hgone x hx (happly x hmem)
  · intro x hx hmem
    rw [hsplit, mem_append, mem_reverse] at hmem
    rcases hmem with hmem | hmem
    · rcases hjoins.meets with ⟨hlast, -⟩ | ⟨hnil, -⟩
      · -- a block before the intersection and after it would be its own ancestor
        have hafter := hjoins.linked.isAncestor x hx
        obtain ⟨init, hinit⟩ := getLast?_eq_some_iff.1 hlast
        rw [hinit, mem_append, mem_singleton] at hmem
        rw [hinit] at hkept
        rcases hmem with hmem | rfl
        · have hbefore := (pairwise_append.1 hkept.pairwise_isAncestor).2.2 x hmem
            plan.intersection (mem_singleton.2 rfl)
          exact hacyclic x (hbefore.trans hafter)
        · exact hacyclic _ hafter
      · rw [hnil] at hmem
        cases hmem
    · exact hgone x hmem (happly x hx)

/-! ## Every chain in reach is found -/

/-- The anchor is not a stored block, unless it is on the selected chain. -/
def AnchorOutside (db : VolatileDB) (anchor : Hash32) : Prop :=
  (db.blocks.lookup anchor).isSome → anchor ∈ db.selectedChain

/-- The point where a connected chain joins lies on the ancestry of the target, or is the parent of
its first block. -/
theorem mem_or_root_of_joins {root : Hash32}
    (hroot : LinkedFrom db.blocks root (db.walkChainBack newTipHash))
    (hout : db.blocks.lookup root = none)
    (h : Joins db newTipHash immutableAnchor allowGenesisAnchor kept apply point)
    (hstored : (db.blocks.lookup newTipHash).isSome) :
    point.1 ∈ db.walkChainBack newTipHash ∨
      apply = db.walkChainBack newTipHash ∧ root = point.1 := by
  obtain ⟨b, hb⟩ := isSome_iff_exists.1 hstored
  have hend := walkChainBack_getLast (walkChainBack_ne_nil hb)
  by_cases happly : apply = []
  · -- the target is the point itself
    have hpoint : kept.getLast? = some newTipHash := by simpa [happly] using h.ends
    rcases h.meets with ⟨hlast, -⟩ | ⟨hnil, -⟩
    · obtain rfl : newTipHash = point.1 := Option.some.inj (hpoint.symm.trans hlast)
      exact .inl (mem_of_getLast? hend)
    · rw [hnil] at hpoint
      cases hpoint
  · have hlast : apply.getLast? = (db.walkChainBack newTipHash).getLast? := by
      rw [hend, ← h.ends, getLast?_append]
      cases hl : apply.getLast? with
      | none => exact absurd (getLast?_eq_none_iff.1 hl) happly
      | some x => rfl
    obtain ⟨older, hold⟩ := hroot.suffix_of_root hout h.linked hlast
    rw [← hold] at hroot
    have hbefore := hroot.getLast_of_append h.linked happly
    cases hy : older.getLast? with
    | some y =>
      rw [hy, getD_some] at hbefore
      rw [← hold, ← hbefore]
      exact .inl (mem_append_left _ (mem_of_getLast? hy))
    | none =>
      rw [hy, getD_none] at hbefore
      rw [getLast?_eq_none_iff.1 hy, nil_append] at hold
      exact .inr ⟨hold, hbefore⟩

theorem isSome_of_common (hstored : ∀ x ∈ db.selectedChain, ∃ b, db.blocks.lookup x = some b)
    (hne : db.walkChainBack newTipHash ≠ []) (hmem : h ∈ db.selectedChain)
    (hnew : h ∈ db.walkChainBack newTipHash)
    (hle : (db.rolledBack (db.walkChainBack newTipHash)).length ≤ maxRollback) :
    (db.switchChain newTipHash immutableAnchor maxRollback allowGenesisAnchor).isSome := by
  cases hlast : (db.keptChain (db.walkChainBack newTipHash)).getLast? with
  | none =>
    have hnil := getLast?_eq_none_iff.1 hlast
    rw [selectedChain_eq_append db (db.walkChainBack newTipHash), hnil, nil_append,
      mem_reverse] at hmem
    exact absurd hnew (notMem_of_mem_rolledBack hmem)
  | some i =>
  have hkeeps : db.keptChain (db.walkChainBack newTipHash) <+: db.selectedChain :=
    keptChain_isPrefix _
  obtain ⟨b, hb⟩ := hstored i (hkeeps.subset (mem_of_getLast? hlast))
  have hplan : db.switchPlan (db.walkChainBack newTipHash) immutableAnchor allowGenesisAnchor =
      some ⟨i, b.slot, db.rolledBack (db.walkChainBack newTipHash),
        (db.walkChainBack newTipHash).drop ((db.walkChainBack newTipHash).idxOf i + 1)⟩ := by
    rw [switchPlan_of_common hlast, hb]
    rfl
  exact isSome_of_plan hne hplan hle

theorem isSome_of_anchor {b : VolatileBlock} {anchorSlot : Nat}
    (hnone : (db.keptChain (db.walkChainBack newTipHash)).getLast? = none)
    (hhead : (db.walkChainBack newTipHash).head? = some h) (hb : db.blocks.lookup h = some b)
    (hanchor : immutableAnchor = some (b.prevHash, anchorSlot) ∨
      allowGenesisAnchor = true ∧ b.prevHash = 0 ∧ h ∉ db.unknownPrev)
    (hle : db.selectedChain.length ≤ maxRollback) :
    (db.switchChain newTipHash immutableAnchor maxRollback allowGenesisAnchor).isSome := by
  have hne : db.walkChainBack newTipHash ≠ [] := by
    intro hnil
    rw [hnil] at hhead
    cases hhead
  have hsome : (db.switchPlan (db.walkChainBack newTipHash) immutableAnchor
      allowGenesisAnchor).isSome := by
    simp only [switchPlan, hnone, hhead, bind_some, hb, map_some]
    split
    · rfl
    next hnot =>
    rcases hanchor with rfl | ⟨hallow, hzero, hknown⟩
    · simp
    · exact absurd ⟨hallow, by simpa using hknown, by rw [hzero]⟩ hnot
  obtain ⟨plan, hplan⟩ := isSome_iff_exists.1 hsome
  refine isSome_of_plan hne hplan ?_
  rw [(switchPlan_of_none hnone hplan).1, length_reverse]
  exact hle

theorem isSome_of_joins (hacyclic : Acyclic db.blocks)
    (hchain : LinkedFrom db.blocks start db.selectedChain)
    (hanchor : ∀ anchor ∈ immutableAnchor, AnchorOutside db anchor.1)
    (hgenesis : allowGenesisAnchor = true → AnchorOutside db 0)
    (h : Joins db newTipHash immutableAnchor allowGenesisAnchor kept apply point)
    (hle : db.selectedChain.length ≤ kept.length + maxRollback) :
    (db.switchChain newTipHash immutableAnchor maxRollback allowGenesisAnchor).isSome := by
  obtain ⟨root, hroot, hout⟩ := exists_root hacyclic newTipHash
  have htarget : (db.blocks.lookup newTipHash).isSome := by
    have hmem := mem_of_getLast? h.ends
    rcases mem_append.1 hmem with hmem | hmem
    · obtain ⟨b, hb⟩ := hchain.stored _ (h.keeps.subset hmem)
      exact isSome_of_eq_some hb
    · obtain ⟨b, hb⟩ := h.linked.stored _ hmem
      exact isSome_of_eq_some hb
  obtain ⟨b, hb⟩ := isSome_iff_exists.1 htarget
  have hne := walkChainBack_ne_nil hb
  have hlength := congrArg length (selectedChain_eq_append db (db.walkChainBack newTipHash))
  rw [length_append, length_reverse] at hlength
  have hwhole : kept = [] → (db.rolledBack (db.walkChainBack newTipHash)).length ≤ maxRollback := by
    rintro rfl
    rw [length_nil] at hle
    omega
  rcases mem_or_root_of_joins hroot hout h htarget with hmem | ⟨rfl, rfl⟩
  · rcases h.meets with ⟨hlast, -⟩ | ⟨hnil, hpoint⟩
    · have hselected := h.keeps.subset (mem_of_getLast? hlast)
      have hkept := length_le_keptChain h.keeps hlast hmem
      exact isSome_of_common hchain.stored hne hselected hmem (by omega)
    -- the anchor is stored, so it is on the selected chain
    obtain ⟨c, hc⟩ := hroot.stored _ hmem
    have hselected : point.1 ∈ db.selectedChain := by
      rcases hpoint with rfl | ⟨hallow, rfl, -⟩
      · exact hanchor point rfl (isSome_of_eq_some hc)
      · exact hgenesis hallow (isSome_of_eq_some hc)
    exact isSome_of_common hchain.stored hne hselected hmem (hwhole hnil)
  · rcases h.meets with ⟨hlast, -⟩ | ⟨hnil, hpoint⟩
    · obtain ⟨c, hc⟩ := hchain.stored _ (h.keeps.subset (mem_of_getLast? hlast))
      rw [hout] at hc
      cases hc
    obtain ⟨x, rest, hwalk⟩ := exists_cons_of_ne_nil hne
    have hlinked := h.linked
    rw [hwalk] at hlinked
    obtain ⟨c, hc, hprev, -⟩ := hlinked
    cases hlast : (db.keptChain (db.walkChainBack newTipHash)).getLast? with
    | some i =>
      have hkeeps : db.keptChain (db.walkChainBack newTipHash) <+: db.selectedChain :=
        keptChain_isPrefix _
      exact isSome_of_common hchain.stored hne (hkeeps.subset (mem_of_getLast? hlast))
        (keptChain_subset hlast) (hwhole hnil)
    | none =>
    have hhead : (db.walkChainBack newTipHash).head? = some x := by
      rw [hwalk]
      rfl
    have hreached : immutableAnchor = some (c.prevHash, point.2) ∨
        allowGenesisAnchor = true ∧ c.prevHash = 0 ∧ x ∉ db.unknownPrev := by
      rw [hprev]
      rcases hpoint with rfl | ⟨hallow, rfl, hknown⟩
      · exact .inl rfl
      · exact .inr ⟨hallow, rfl, hknown x hhead⟩
    rw [hnil, length_nil, Nat.zero_add] at hle
    exact isSome_of_anchor hlast hhead hc hreached hle

/-- The plan of a switch turns the selected chain into a connected chain to the target, with the
latest common block or the anchor as its intersection; without a plan nothing changes; and if the
anchors are not stored, there is a plan whenever such a chain rolls back no more than allowed. -/
theorem switchChain_exact (hacyclic : Acyclic db.blocks)
    (hchain : LinkedFrom db.blocks start db.selectedChain) :
    let outcome := db.switchOutcome newTipHash immutableAnchor maxRollback allowGenesisAnchor
    (∀ plan, outcome.1 = some plan →
        Switched db newTipHash immutableAnchor maxRollback allowGenesisAnchor plan outcome.2) ∧
      (outcome.1 = none → outcome.2 = db) ∧
      ((∀ anchor ∈ immutableAnchor, AnchorOutside db anchor.1) →
        (allowGenesisAnchor = true → AnchorOutside db 0) →
        (∃ kept apply point,
          Joins db newTipHash immutableAnchor allowGenesisAnchor kept apply point ∧
            db.selectedChain.length ≤ kept.length + maxRollback) →
        outcome.1.isSome) := by
  intro outcome
  have houtcome : outcome = db.switchOutcome newTipHash immutableAnchor maxRollback
      allowGenesisAnchor := rfl
  rw [switchOutcome] at houtcome
  refine ⟨fun plan hplan => ?_, fun hnone => ?_, ?_⟩
  · cases hswitch : db.switchChain newTipHash immutableAnchor maxRollback allowGenesisAnchor with
    | none =>
      rw [houtcome, hswitch] at hplan
      cases hplan
    | some r =>
      rw [houtcome, hswitch] at hplan ⊢
      cases hplan
      exact switched_of_some hacyclic hchain hswitch
  · cases hswitch : db.switchChain newTipHash immutableAnchor maxRollback allowGenesisAnchor with
    | none => rw [houtcome, hswitch]
    | some r =>
      rw [houtcome, hswitch] at hnone
      cases hnone
  · rintro hanchor hgenesis ⟨kept, apply, point, hjoins, hle⟩
    obtain ⟨r, hswitch⟩ := Option.isSome_iff_exists.1
      (isSome_of_joins hacyclic hchain hanchor hgenesis hjoins hle)
    rw [houtcome, hswitch]
    rfl

/-- Two blocks on top of block 1, the first of them selected. -/
def fork (selectedChain : List Hash32) : VolatileDB :=
  { VolatileDB.empty with
    blocks := FinMap.insertAll [(1, ⟨1, 1, 9⟩), (2, ⟨2, 2, 1⟩), (3, ⟨3, 2, 1⟩)] ∅
    selectedChain := selectedChain }

theorem acyclic_fork (selectedChain : List Hash32) : Acyclic (fork selectedChain).blocks :=
  acyclic_insertAll (fun h => if h = 9 then 0 else h.toNat) (by decide)

theorem linkedFrom_fork : LinkedFrom (fork [1, 2]).blocks 9 [1, 2] :=
  ⟨⟨1, 1, 9⟩, by decide +kernel, rfl, ⟨2, 2, 1⟩, by decide +kernel, rfl, trivial⟩

theorem fork_switched :
    let outcome := (fork [1, 2]).switchOutcome 3 (some (9, 0)) 1 false
    outcome.1 = some ⟨1, 1, [2], [3]⟩ ∧
      Switched (fork [1, 2]) 3 (some (9, 0)) 1 false ⟨1, 1, [2], [3]⟩ outcome.2 ∧
      (∀ anchor ∈ some ((9 : Hash32), 0), AnchorOutside (fork [1, 2]) anchor.1) := by
  have hplan : ((fork [1, 2]).switchOutcome 3 (some (9, 0)) 1 false).1 =
      some ⟨1, 1, [2], [3]⟩ := by decide +kernel
  have hanchor : ∀ anchor ∈ some ((9 : Hash32), 0), AnchorOutside (fork [1, 2]) anchor.1 := by
    rintro anchor hanchor
    cases hanchor
    rw [AnchorOutside]
    decide +kernel
  exact ⟨hplan, (switchChain_exact (acyclic_fork [1, 2]) linkedFrom_fork).1 _ hplan, hanchor⟩

/-- The anchor, block 1, is stored: the walk back from block 3 goes past it, and the switch from
block 2 to block 3 is refused although both are children of the anchor. -/
theorem stored_anchor_refused :
    Acyclic (fork [2]).blocks ∧ LinkedFrom (fork [2]).blocks 1 (fork [2]).selectedChain ∧
      Joins (fork [2]) 3 (some (1, 1)) false [] [3] (1, 1) ∧
      (fork [2]).selectedChain.length ≤ 10 ∧
      ((fork [2]).switchOutcome 3 (some (1, 1)) 10 false).1 = none := by
  have hjoins : Joins (fork [2]) 3 (some (1, 1)) false [] [3] (1, 1) :=
    ⟨ nil_prefix, ⟨⟨3, 2, 1⟩, by decide +kernel, rfl, trivial⟩, rfl, .inr ⟨rfl, .inl rfl⟩⟩
  exact ⟨acyclic_fork [2], ⟨⟨2, 2, 1⟩, by decide +kernel, rfl, trivial⟩, hjoins,
    by decide, by decide +kernel⟩

end VolatileDB

end Dugite
