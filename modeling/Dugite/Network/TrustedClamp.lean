import Dugite.Network.Governor

/-!
# The restriction to trusted peers

While `sync_trusted_only` is set, the governor is to promote trusted peers and local roots only. The
aggregate passes look at the restriction. The passes for the big ledger peers and the two churn
rotations do not, and each promotes whatever it finds. `clamp_holds_iff` says when that is a trusted
peer whatever the order in which the peers are listed.

Every pass is described by what it adds (`Grows`); a promotion that was made stays in the list.
-/

namespace Dugite.Peers

open List PeerManager Governor Option

open Connections (SocketAddr)

def GovernorAction.promotes : GovernorAction → Option SocketAddr
  | .promoteToWarm a | .promoteToHot a => some a
  | _ => none

@[simp] theorem Promotion.promotes_action (p : Promotion) (a : SocketAddr) :
    (p.action a).promotes = some a := by
  cases p <;> rfl

/-! ## What a pass adds -/

/-- From one state of a tick to a later one: the actions stay, and only peers with a property are
promoted. -/
structure Adds (S : SocketAddr → Prop) (t t' : Tick) : Prop where
  adds : ∀ action ∈ t'.actions, action ∈ t.actions ∨ ∀ a, action.promotes = some a → S a
  keeps : t.actions ⊆ t'.actions

/-- Moreover, only peers that are hot go into cooldown. -/
structure Grows (pm : PeerManager) (S : SocketAddr → Prop) (t t' : Tick) : Prop
    extends Adds S t t' where
  started : ∀ p a, a ∈ t'.governor.inProgress p → a ∈ t.governor.inProgress p ∨ S a
  inProgress : ∀ p, t.governor.inProgress p ⊆ t'.governor.inProgress p
  promoted : ∀ a ∈ t'.alreadyPromoted, a ∈ t.alreadyPromoted ∨ S a
  cooldown : ∀ now a, pm.has (·.state = .hot) a = false →
    t'.governor.inCooldown now a = t.governor.inCooldown now a
  config : t'.governor.config = t.governor.config
  trusted : t'.governor.syncTrustedOnly = t.governor.syncTrustedOnly
  bulkSync : t'.governor.bulkSyncMode = t.governor.bulkSyncMode
  warmTimer : t'.governor.lastWarmChurn = t.governor.lastWarmChurn

variable {α : Type} {l : List α} {action : GovernorAction} {as : List SocketAddr}

section
variable {pm : PeerManager} {S S' : SocketAddr → Prop} {t t' t'' : Tick}

theorem Adds.trans (h : Adds S t t') (h' : Adds S t' t'') : Adds S t t'' where
  adds action ha := (h'.adds action ha).elim (h.adds action) .inr
  keeps := List.Subset.trans h.keeps h'.keeps

theorem Grows.refl (pm : PeerManager) (S : SocketAddr → Prop) (t : Tick) : Grows pm S t t :=
  ⟨⟨fun _ => .inl, fun _ => id⟩, fun _ _ => .inl, fun _ _ => id, fun _ => .inl, fun _ _ _ => rfl,
    rfl, rfl, rfl, rfl⟩

theorem Grows.trans (h : Grows pm S t t') (h' : Grows pm S t' t'') : Grows pm S t t'' where
  toAdds := h.toAdds.trans h'.toAdds
  started p a ha := (h'.started p a ha).elim (h.started p a) .inr
  inProgress p := (h.inProgress p).trans (h'.inProgress p)
  promoted a ha := (h'.promoted a ha).elim (h.promoted a) .inr
  cooldown now a ha := (h'.cooldown now a ha).trans (h.cooldown now a ha)
  config := h'.config.trans h.config
  trusted := h'.trusted.trans h.trusted
  bulkSync := h'.bulkSync.trans h.bulkSync
  warmTimer := h'.warmTimer.trans h.warmTimer

theorem Grows.mono (h : Grows pm S t t') (hS : ∀ a, S a → S' a) : Grows pm S' t t' :=
  { h with
    adds := fun action ha => (h.adds action ha).imp_right fun hall a hp => hS a (hall a hp)
    started := fun p a ha => (h.started p a ha).imp_right (hS a)
    promoted := fun a ha => (h.promoted a ha).imp_right (hS a) }

/-- A pass that leaves the timer of hot churn alone. -/
structure Step (pm : PeerManager) (S : SocketAddr → Prop) (t t' : Tick) : Prop
    extends Grows pm S t t' where
  hotTimer : t'.governor.lastHotChurn = t.governor.lastHotChurn

theorem Step.refl (pm : PeerManager) (S : SocketAddr → Prop) (t : Tick) : Step pm S t t :=
  ⟨.refl pm S t, rfl⟩

theorem Step.trans (h : Step pm S t t') (h' : Step pm S t' t'') : Step pm S t t'' :=
  ⟨h.toGrows.trans h'.toGrows, h'.hotTimer.trans h.hotTimer⟩

theorem Step.mono (h : Step pm S t t') (hS : ∀ a, S a → S' a) : Step pm S' t t' :=
  ⟨h.toGrows.mono hS, h.hotTimer⟩

theorem Step.foldl {f : Tick → α → Tick}
    (h : ∀ x ∈ l, ∀ t, Step pm S t (f t x)) (t : Tick) : Step pm S t (l.foldl f t) := by
  induction l generalizing t with
  | nil => exact .refl pm S t
  | cons x l ih =>
    exact (h x (mem_cons_self ..) t).trans
      (ih (fun y hy => h y (mem_cons_of_mem x hy)) (f t x))

theorem Step.append (t : Tick) {actions : List GovernorAction}
    (h : ∀ action ∈ actions, ∀ a, action.promotes = some a → S a) :
    Step pm S t { t with actions := t.actions ++ actions } where
  adds b hb := (mem_append.1 hb).imp_right (h b)
  keeps _ := mem_append_left _
  started _ _ := .inl
  inProgress _ _ := id
  promoted _ := .inl
  cooldown _ _ _ := rfl
  config := rfl
  trusted := rfl
  bulkSync := rfl
  warmTimer := rfl
  hotTimer := rfl

theorem Step.push (t : Tick) (h : ∀ a, action.promotes = some a → S a) :
    Step pm S t (t.push action) :=
  .append t fun _ hb => mem_singleton.1 hb ▸ h

variable {a : SocketAddr}

theorem mem_inProgress_start {g : Governor} {b : SocketAddr} {p q : Promotion} :
    b ∈ (g.start a p).inProgress q ↔ b ∈ g.inProgress q ∨ p = q ∧ b = a := by
  cases p <;> cases q <;> simp [start, Governor.inProgress, or_comm]

theorem Step.promote (t : Tick) (p : Promotion) (h : S a) : Step pm S t (t.promote p a) where
  adds b hb := (mem_append.1 hb).imp_right fun hb x hx => by
    rw [mem_singleton.1 hb, Promotion.promotes_action, some_inj] at hx
    exact hx ▸ h
  keeps _ := mem_append_left _
  started q b hb := (mem_inProgress_start.1 hb).imp_right fun hb : p = q ∧ b = a => hb.2 ▸ h
  inProgress q b hb := mem_inProgress_start.2 (.inl hb)
  promoted b hb := (Finset.mem_insert.1 hb).symm.imp_right fun hb : b = a => hb ▸ h
  cooldown _ _ _ := by cases p <;> rfl
  config := by cases p <;> rfl
  trusted := by cases p <;> rfl
  bulkSync := by cases p <;> rfl
  warmTimer := by cases p <;> rfl
  hotTimer := by cases p <;> rfl

/-- A promotion loop takes peers of its list that pass the guards and are not in progress. -/
theorem step_promoteFrom (p : Promotion) (guards : SocketAddr → Bool) (needed : Nat)
    (l : List SocketAddr) (t : Tick) :
    Step pm (fun a => 0 < needed ∧ a ∈ l ∧ guards a = true ∧ a ∉ t.governor.inProgress p) t
      (t.promoteFrom p guards needed l) := by
  induction l generalizing needed t with
  | nil =>
    rw [Tick.promoteFrom]
    exact .refl ..
  | cons a as ih =>
    rw [Tick.promoteFrom.eq_def]
    cases needed with
    | zero => exact .refl ..
    | succ n =>
    dsimp only
    split
    · exact (ih (n + 1) t).mono fun b hb => ⟨hb.1, mem_cons_of_mem a hb.2.1, hb.2.2⟩
    next hpass =>
    rw [not_or, not_or, Bool.not_eq_false] at hpass
    have hnow : Step pm (fun b => 0 < n + 1 ∧ b ∈ a :: as ∧ guards b = true ∧
        b ∉ t.governor.inProgress p) t (t.promote p a) :=
      .promote t p ⟨Nat.succ_pos n, mem_cons_self .., hpass.2.2, hpass.2.1⟩
    refine hnow.trans ((ih n (t.promote p a)).mono fun b hb => ?_)
    exact ⟨Nat.succ_pos n, mem_cons_of_mem a hb.2.1, hb.2.2.1,
      fun hmem => hb.2.2.2 (hnow.inProgress p hmem)⟩

/-- The first peer of the list is taken if nothing stands against it. -/
theorem mem_promoteFrom_head {p : Promotion} {guards : SocketAddr → Bool} {needed : Nat}
    (hneeded : 0 < needed) (hguards : guards a = true)
    (hprogress : a ∉ t.governor.inProgress p) (hpromoted : a ∉ t.alreadyPromoted) :
    p.action a ∈ (t.promoteFrom p guards needed (a :: as)).actions := by
  obtain ⟨n, rfl⟩ : ∃ n, needed = n + 1 := ⟨needed - 1, by omega⟩
  rw [Tick.promoteFrom, if_neg]
  · have hrest : Step {} _ (t.promote p a) _ := step_promoteFrom p guards n as (t.promote p a)
    exact hrest.keeps (mem_append_right _ (mem_singleton_self _))
  · simp [hpromoted, hprogress, hguards]

end

/-! ## The passes -/

section
variable {i : Inputs} {clock : Clock} {choices : Choices} {S : SocketAddr → Prop} {t : Tick}
  {a : SocketAddr} {pm : PeerManager} {order : Listing.Enumeration SocketAddr}

theorem mem_localRootMembers {group : LocalRootGroupTarget} (h : group ∈ i.localRootGroups)
    (ha : a ∈ group.members) : a ∈ i.localRootMembers := by
  rw [Inputs.localRootMembers]
  generalize i.localRootGroups = groups at h
  induction groups with
  | nil => cases h
  | cons first rest ih =>
    rw [foldr_cons, Finset.mem_union]
    rcases mem_cons.1 h with rfl | h
    · exact .inl ha
    · exact .inr (ih h)

theorem step_localRoots (t : Tick) :
    Step i.peers (· ∈ i.localRootMembers) t (localRoots i clock choices t) := by
  refine .foldl (fun x hx t => ?_) t
  have hgroup : x.1 ∈ i.localRootGroups := by exact (mem_zipIdx' hx).2 ▸ getElem_mem _
  have hmember : ∀ a, a ∈ (choices.members x.2).list x.1.members → a ∈ i.localRootMembers :=
    fun a ha => mem_localRootMembers hgroup ((choices.members x.2).mem_list.1 ha)
  exact ((step_promoteFrom ..).mono fun a ha => hmember a ha.2.1).trans
    ((step_promoteFrom ..).mono fun a ha => hmember a ha.2.1)

/-- A peer does not have two properties that exclude each other. -/
theorem has_eq_false {p q : PeerInfo → Bool} (hpq : ∀ info, p info = true → q info = false)
    (h : pm.has p a = true) : pm.has q a = false := by
  unfold has at h ⊢
  cases hpeer : pm.getPeer a with
  | none => rfl
  | some info =>
    rw [hpeer] at h
    exact hpq info h

variable {s : PeerState} {now : Nat}

theorem notHot_of_ne (hs : s ≠ .hot)
    (h : pm.has (·.state = s) a = true) : pm.has (·.state = .hot) a = false :=
  has_eq_false (fun info hinfo => by simp [of_decide_eq_true hinfo, hs]) h

theorem not_of_eligible (hs : s ≠ .cold)
    (h : pm.has (eligible now) a = true) : pm.has (·.state = s) a = false :=
  has_eq_false (fun info hinfo => by simp [(of_decide_eq_true hinfo).1, hs.symm]) h

/-- What the pass for the big ledger peers may promote to warm. -/
def WarmPick (i : Inputs) (clock : Clock) (g : Governor) (a : SocketAddr) : Prop :=
  i.countIn i.bigLedgerPeers PeerInfo.established < g.config.targets.targetWarmBigLedger ∧
    a ∈ i.bigLedgerPeers ∧ i.peers.has (PeerManager.eligible clock.bigLedger) a = true ∧
    g.inCooldown clock.now a = false ∧ a ∉ g.inProgressPromoteCold

/-- What the pass for the big ledger peers may promote to hot. -/
def HotPick (i : Inputs) (clock : Clock) (g : Governor) (a : SocketAddr) : Prop :=
  i.countIn i.bigLedgerPeers (·.state = .hot) < g.config.targets.targetHotBigLedger ∧
    a ∈ i.bigLedgerPeers ∧ i.peers.has (·.state = .warm) a = true ∧
    g.inCooldown clock.now a = false ∧ a ∉ g.inProgressPromoteWarm ∧ a ∉ i.freshInbound

theorem step_bigLedgerWarm (t : Tick) :
    Step i.peers (WarmPick i clock t.governor) t (bigLedgerWarm i clock choices t) := by
  refine (step_promoteFrom ..).mono fun a ⟨hneeded, hmem, hguards, hprogress⟩ => ?_
  rw [mem_filter, peersEligibleToConnect, mem_filter] at hmem
  exact ⟨Nat.lt_of_sub_pos hneeded, of_decide_eq_true hmem.2, hmem.1.2, by simpa using hguards,
    hprogress⟩

theorem step_bigLedgerHot (t : Tick) :
    Step i.peers (HotPick i clock t.governor) t (bigLedgerHot i clock choices t) := by
  refine (step_promoteFrom ..).mono fun a ⟨hneeded, hmem, hguards, hprogress⟩ => ?_
  rw [mem_filter, peersInState, mem_filter] at hmem
  rw [Bool.and_eq_true, decide_eq_true_iff, Bool.not_eq_true'] at hguards
  exact ⟨Nat.lt_of_sub_pos hneeded, of_decide_eq_true hmem.2, hmem.1.2, hguards.1, hprogress,
    hguards.2⟩

variable {T : Finset SocketAddr} {cmp : α → α → Ordering}

/-! ### Demotions -/

theorem step_demoteAll (now : Nat) (h : ∀ a ∈ as, pm.has (·.state = .hot) a = true) (t : Tick) :
    Step pm S t (demoteAll now as t) := by
  refine .foldl (fun a ha t => ?_) t
  have hpush : Step pm S t (t.push (.demoteToWarm a)) := .push t fun _ hp => (nomatch hp)
  refine ⟨{ hpush.toGrows with cooldown := fun n b hb => ?_ }, rfl⟩
  have hne : b ≠ a := by
    rintro rfl
    rw [h b ha] at hb
    cases hb
  change ((t.governor.recentlyDemoted.insert a _).lookup b).any _ = _
  rw [Finmap.lookup_insert_of_ne _ hne]
  rfl

theorem mem_of_mem_scored {score : SocketAddr → PeerInfo → Option Float}
    {l : List SocketAddr} {x : SocketAddr × Float} (h : x ∈ pm.scored score l) : x.1 ∈ l := by
  rw [scored, mem_filterMap] at h
  obtain ⟨a, ha, hx⟩ := h
  obtain ⟨p, -, hx⟩ := bind_eq_some_iff.1 hx
  obtain ⟨s, -, rfl⟩ := map_eq_some_iff.1 hx
  exact ha

theorem has_of_mem_peersInState (h : a ∈ pm.peersInState order s) : pm.has (·.state = s) a = true :=
  (mem_filter.1 h).2

theorem step_demoteUntrusted (t : Tick) : Step i.peers S t (demoteUntrusted i choices t) := by
  refine .append t fun action h _ hp => ?_
  obtain ⟨a, -, rfl⟩ := mem_map.1 h
  cases hp

theorem step_aboveTargetOther (t : Tick) :
    Step i.peers S t (aboveTargetOther i clock choices t) := by
  refine step_demoteAll clock.now (fun a ha => ?_) t
  obtain ⟨x, hx, rfl⟩ := mem_map.1 ha
  have hx := (perm_insertionSort _ _).mem_iff.1 (mem_of_mem_take hx)
  exact has_of_mem_peersInState (mem_of_mem_scored hx)

theorem step_aboveTargetLocal (t : Tick) : Step i.peers S t (aboveTargetLocal i choices t) :=
  .foldl (fun _ _ t => .foldl (fun _ _ t => .push t fun _ hp => (nomatch hp)) t) t

/-! ### Churn -/

/-- A fold that keeps one of two elements at each turn returns an element of the list. -/
theorem mem_foldl_of_choice {f : α → α → α} (hf : ∀ a b, f a b = a ∨ f a b = b)
    (l : List α) (x : α) : l.foldl f x ∈ x :: l := by
  induction l generalizing x with
  | nil => exact mem_singleton_self x
  | cons y l ih =>
    rw [foldl_cons]
    rcases hf x y with h | h
    · rw [h]
      exact cons_subset_cons x (subset_cons_self y l) (ih x)
    · rw [h]
      exact mem_cons_of_mem x (ih y)

theorem mem_of_maxBy {x : α} (h : maxBy cmp l = some x) : x ∈ l := by
  cases l with
  | nil => cases h
  | cons y ys =>
    obtain rfl := Option.some.inj h
    exact mem_foldl_of_choice (fun a b => ite_eq_or_eq _ a b) ys y

theorem mem_of_minBy {x : α} (h : minBy cmp l = some x) : x ∈ l := by
  cases l with
  | nil => cases h
  | cons y ys =>
    obtain rfl := Option.some.inj h
    exact mem_foldl_of_choice (fun a b => (ite_eq_or_eq _ b a).symm) ys y

theorem warm_of_selectBestWarm (h : pm.selectBestWarm order = some a) :
    pm.has (·.state = .warm) a = true := by
  obtain ⟨x, hx, rfl⟩ := map_eq_some_iff.1 h
  exact has_of_mem_peersInState (mem_of_mem_scored (mem_of_maxBy hx))

theorem notHot_of_selectBestColdEligible
    (h : pm.selectBestColdEligible order now = some a) : pm.has (·.state = .hot) a = false := by
  obtain ⟨x, hx, rfl⟩ := map_eq_some_iff.1 h
  have hmem := (mem_filter.1 (mem_of_mem_scored (mem_of_maxBy hx))).1
  exact notHot_of_ne (by decide) (has_of_mem_peersInState hmem)

/-- What warm churn promotes may be connected to. -/
theorem eligible_of_selectBestColdEligible (h : pm.selectBestColdEligible order now = some a) :
    pm.has (PeerManager.eligible now) a = true := by
  obtain ⟨x, hx, rfl⟩ := map_eq_some_iff.1 h
  have hmem := of_decide_eq_true (mem_filter.1 (mem_of_mem_scored (mem_of_maxBy hx))).2
  exact (mem_filter.1 hmem).2

theorem step_rotateHotOut (t : Tick) : Step i.peers S t (rotateHotOut i clock choices t) := by
  rw [rotateHotOut]
  split
  · next a h =>
    obtain ⟨x, hx, rfl⟩ := map_eq_some_iff.1 h
    refine step_demoteAll clock.now (fun b hb => ?_) t
    rw [mem_singleton.1 hb]
    exact has_of_mem_peersInState (mem_of_mem_scored (mem_of_minBy hx))
  · exact .refl ..

/-- Hot churn promotes the best warm peer, whoever it is. -/
theorem grows_hotChurn
    (h : clock.hotChurn - t.governor.lastHotChurn ≥ t.governor.effectiveHotChurnInterval →
      i.peers.countByState .hot > 1 → ∀ a, i.peers.selectBestWarm choices.peers = some a →
        t.governor.inCooldown clock.now a = false → a ∉ i.freshInbound → S a) :
    Grows i.peers S t (hotChurn i clock choices t) := by
  rw [hotChurn]
  split
  · next hdue =>
    have hout : Step i.peers S t (rotateHotOut i clock choices t) := step_rotateHotOut t
    have hin : Grows i.peers S (rotateHotOut i clock choices t)
        (rotateHotIn i clock choices (rotateHotOut i clock choices t)) := by
      rw [rotateHotIn]
      split
      · next a hbest =>
        split
        · next hpass =>
          rw [hout.cooldown clock.now a (notHot_of_ne (by decide) (warm_of_selectBestWarm hbest))]
            at hpass
          refine (Step.push _ fun b hb => ?_).toGrows
          obtain rfl := some_inj.1 hb
          exact h hdue.1 hdue.2 a hbest hpass.1 hpass.2
        · exact .refl ..
      · exact .refl ..
    exact { hout.toGrows.trans hin with }
  · exact .refl ..

theorem grows_coldChurn (t : Tick) : Grows i.peers S t (coldChurn i clock choices t) := by
  rw [coldChurn]
  split
  · dsimp only
    split
    · have hforget : ∀ l : List SocketAddr, Step i.peers S t
          { t with actions := t.actions ++ l.map GovernorAction.forgetPeer } := by
        refine fun l => .append t fun action h _ hp => ?_
        obtain ⟨a, -, rfl⟩ := mem_map.1 h
        cases hp
      exact { (hforget _).toGrows with }
    · exact { Grows.refl i.peers S t with }
  · exact .refl ..

theorem step_rotateWarmOut (t : Tick) : Step i.peers S t (rotateWarmOut i choices t) := by
  rw [rotateWarmOut]
  split
  · split
    · exact .push t fun _ hp => (nomatch hp)
    · exact .refl ..
  · exact .refl ..

/-- Warm churn promotes the best cold peer, whoever it is. -/
theorem adds_warmChurn
    (h : clock.warmChurn - t.governor.lastWarmChurn ≥ t.governor.config.warmChurnInterval →
      i.peers.countByState .warm < t.governor.config.targets.targetWarm →
        ∀ a, i.peers.selectBestColdEligible choices.peers clock.churnEligible = some a →
          t.governor.inCooldown clock.now a = false → S a) :
    Adds S t (warmChurn i clock choices t) := by
  rw [warmChurn]
  split
  · next hdue =>
    have hout : Step i.peers S t (rotateWarmOut i choices t) := step_rotateWarmOut t
    have hin : Step i.peers S (rotateWarmOut i choices t)
        (rotateWarmIn i clock choices (rotateWarmOut i choices t)) := by
      rw [rotateWarmIn]
      split
      · next hbelow =>
        rw [hout.config] at hbelow
        split
        · next a hbest =>
          split
          · next hcooldown =>
            rw [hout.cooldown clock.now a (notHot_of_selectBestColdEligible hbest)] at hcooldown
            refine .push _ fun b hb => ?_
            obtain rfl := some_inj.1 hb
            exact h hdue hbelow a hbest hcooldown
          · exact .refl ..
        · exact .refl ..
      · exact .refl ..
    exact { (hout.trans hin).toAdds with }
  · exact (Grows.refl i.peers S t).toAdds

theorem adds_discover (t : Tick) : Adds S t (discover i choices t) := by
  rw [discover]
  split
  · have hmore : Step i.peers S t (t.push .discoverMore) := .push t fun _ hp => (nomatch hp)
    dsimp only
    split
    · next a _ =>
      have hshare : Step i.peers S (t.push .discoverMore)
          ((t.push .discoverMore).push (.peerShareRequest a)) := .push _ fun _ hp => (nomatch hp)
      exact (hmore.trans hshare).toAdds
    · exact hmore.toAdds
  · exact (Grows.refl i.peers S t).toAdds

end

/-! ## The whole tick -/

variable {i : Inputs} {clock : Clock} {choices : Choices} {g : Governor} {T : Finset SocketAddr}
  {S : SocketAddr → Prop} {t : Tick} {a : SocketAddr}

/-- No pass that skips the restriction finds a peer outside it. -/
structure Clamps (g : Governor) (T : Finset SocketAddr) (i : Inputs) (clock : Clock) : Prop where
  bigLedgerWarm : ∀ a, WarmPick i clock g a → a ∈ T ∨ a ∈ i.localRootMembers
  bigLedgerHot : ∀ a, HotPick i clock g a → a ∈ T ∨ a ∈ i.localRootMembers
  hotChurn : clock.hotChurn - g.lastHotChurn ≥ g.effectiveHotChurnInterval →
    i.peers.countByState .hot > 1 → ∀ order a, i.peers.selectBestWarm order = some a →
      g.inCooldown clock.now a = false → a ∉ i.freshInbound → a ∈ T ∨ a ∈ i.localRootMembers
  warmChurn : clock.warmChurn - g.lastWarmChurn ≥ g.config.warmChurnInterval →
    i.peers.countByState .warm < g.config.targets.targetWarm → ∀ order a,
      i.peers.selectBestColdEligible order clock.churnEligible = some a →
        g.inCooldown clock.now a = false → a ∈ T ∨ a ∈ i.localRootMembers

theorem inCooldown_begin (h : a ∉ i.localRootMembers) :
    (g.begin i clock).governor.inCooldown clock.now a = g.inCooldown clock.now a := by
  unfold begin dropCooldowns inCooldown
  rw [FinMap.lookup_retain]
  cases g.recentlyDemoted.lookup a with
  | none => rfl
  | some expiry =>
    by_cases hnow : clock.now < expiry
    · simp [hnow, h]
    · simp [hnow]

section
variable (hstep : Grows i.peers S (g.begin i clock) t)
include hstep

/-- The cooldown of a peer that is neither hot nor a local root is the one from before the tick. -/
theorem inCooldown_eq
    (ha : i.peers.has (·.state = .hot) a = false) (hroot : a ∉ i.localRootMembers) :
    t.governor.inCooldown clock.now a = g.inCooldown clock.now a :=
  (hstep.cooldown clock.now a ha).trans (inCooldown_begin hroot)

variable (hS : ¬ S a)
include hS

theorem not_promoted : a ∉ t.alreadyPromoted :=
  fun hmem => (hstep.promoted a hmem).elim (fun hnone => nomatch hnone) hS

theorem inProgress_iff (p : Promotion) : a ∈ t.governor.inProgress p ↔ a ∈ g.inProgress p :=
  ⟨fun h => (hstep.started p a h).resolve_right hS, fun h => hstep.inProgress p h⟩

/-- Whom the passes so far may not promote, a later pass finds as before the tick. -/
theorem warmPick_iff (hroot : a ∉ i.localRootMembers) :
    WarmPick i clock t.governor a ↔ WarmPick i clock g a := by
  have hprogress : a ∈ t.governor.inProgressPromoteCold ↔ a ∈ g.inProgressPromoteCold :=
    inProgress_iff hstep hS .toWarm
  rw [WarmPick, hstep.config, hprogress]
  refine and_congr_right fun _ => and_congr_right fun _ => and_congr_right fun heligible => ?_
  rw [inCooldown_eq hstep (not_of_eligible (by decide) heligible) hroot]

theorem hotPick_iff (hroot : a ∉ i.localRootMembers) :
    HotPick i clock t.governor a ↔ HotPick i clock g a := by
  have hprogress : a ∈ t.governor.inProgressPromoteWarm ↔ a ∈ g.inProgressPromoteWarm :=
    inProgress_iff hstep hS .toHot
  rw [HotPick, hstep.config, hprogress]
  refine and_congr_right fun _ => and_congr_right fun _ => and_congr_right fun hwarm => ?_
  rw [inCooldown_eq hstep (notHot_of_ne (by decide) hwarm) hroot]

end

/-- What the first passes may promote. -/
def FirstPick (i : Inputs) (clock : Clock) (g : Governor) (a : SocketAddr) : Prop :=
  a ∈ i.localRootMembers ∨ WarmPick i clock g a ∨ HotPick i clock g a

theorem step_rootsAndWarm (choices : Choices) :
    Step i.peers (fun a => a ∈ i.localRootMembers ∨ WarmPick i clock g a) (g.begin i clock)
      (bigLedgerWarm i clock choices (localRoots i clock choices (g.begin i clock))) := by
  have hroots : Step i.peers (fun a => a ∈ i.localRootMembers ∨ WarmPick i clock g a)
      (g.begin i clock) (localRoots i clock choices (g.begin i clock)) :=
    (step_localRoots _).mono fun _ => .inl
  refine hroots.trans ((step_bigLedgerWarm _).mono fun a ha => ?_)
  by_contra hnot
  exact hnot (.inr ((warmPick_iff hroots.toGrows hnot (not_or.1 hnot).1).1 ha))

theorem step_firstPasses : Step i.peers (FirstPick i clock g) (g.begin i clock)
    (g.firstPasses i clock choices) := by
  rw [firstPasses, bigLedger]
  split
  · exact (step_localRoots _).mono fun _ => .inl
  have hwarm : Step i.peers (FirstPick i clock g) (g.begin i clock) _ :=
    (step_rootsAndWarm choices).mono fun _ => .imp_right .inl
  refine hwarm.trans ((step_bigLedgerHot _).mono fun a ha => ?_)
  by_contra hnot
  exact hnot (.inr (.inr ((hotPick_iff hwarm.toGrows hnot (not_or.1 hnot).1).1 ha)))

/-- From the aggregate targets to the churn timers only trusted peers are promoted. -/
theorem step_targetPasses (h : g.syncTrustedOnly = some T) :
    Step i.peers (· ∈ T) (g.firstPasses i clock choices) (g.targetPasses i clock choices) := by
  have hfirst : (g.firstPasses i clock choices).governor.syncTrustedOnly = some T :=
    step_firstPasses.trusted.trans h
  -- both aggregate passes look at the restriction last
  have hguarded : ∀ {t} {guards : SocketAddr → Bool} (p : Promotion) (n : Nat)
      (l : List SocketAddr), t.governor.syncTrustedOnly = some T → Step i.peers (· ∈ T) t
        (t.promoteFrom p (fun a => guards a && t.governor.trusts a) n l) := by
    intro t guards p n l h
    refine (step_promoteFrom ..).mono fun a ⟨_, _, hguards, _⟩ => ?_
    rw [Bool.and_eq_true] at hguards
    simpa [trusts, h] using hguards.2
  have hwarm : Step i.peers (· ∈ T) (g.firstPasses i clock choices)
      (aggregateWarm i clock choices (g.firstPasses i clock choices)) := hguarded _ _ _ hfirst
  have hhot : ∀ t, t.governor.syncTrustedOnly = some T →
      Step i.peers (· ∈ T) t (aggregateHot i clock choices t) := fun t => hguarded _ _ _
  refine hwarm.trans ((hhot _ (hwarm.trusted.trans hfirst)).trans ?_)
  exact (step_demoteUntrusted _).trans ((step_aboveTargetOther _).trans (step_aboveTargetLocal _))

/-- The state before the churn timers, as far as they read it. -/
theorem step_beforeChurn (h : g.syncTrustedOnly = some T) :
    Step i.peers (fun a => FirstPick i clock g a ∨ a ∈ T) (g.begin i clock)
      (g.targetPasses i clock choices) :=
  (step_firstPasses.mono fun _ => .inl).trans ((step_targetPasses h).mono fun _ => .inr)

theorem grows_churned (h : clock.hotChurn - (g.targetPasses i clock choices).governor.lastHotChurn ≥
        (g.targetPasses i clock choices).governor.effectiveHotChurnInterval →
      i.peers.countByState .hot > 1 → ∀ a, i.peers.selectBestWarm choices.peers = some a →
        (g.targetPasses i clock choices).governor.inCooldown clock.now a = false →
          a ∉ i.freshInbound → S a) :
    Grows i.peers S (g.targetPasses i clock choices) (g.churned i clock choices) :=
  (grows_hotChurn h).trans (grows_coldChurn _)

theorem keeps_churned :
    (g.targetPasses i clock choices).actions ⊆ (g.churned i clock choices).actions :=
  (grows_churned fun _ _ _ _ _ _ => trivial).keeps

theorem keeps_result :
    (g.churned i clock choices).actions ⊆ (g.computeActionsWithBlp i clock choices).1 := by
  have hwarm : Adds (fun _ => True) (g.churned i clock choices)
      (warmChurn i clock choices (g.churned i clock choices)) :=
    adds_warmChurn fun _ _ _ _ _ => trivial
  exact (hwarm.trans (adds_discover _)).keeps

theorem effectiveHotChurnInterval_eq {t' : Tick} (h : Grows i.peers S t t') :
    t'.governor.effectiveHotChurnInterval = t.governor.effectiveHotChurnInterval := by
  rw [effectiveHotChurnInterval, effectiveHotChurnInterval, h.bulkSync, h.config]

/-- If the passes that skip the restriction find no peer outside it, only trusted peers and local
roots are promoted. -/
theorem promotes_of_clamps (h : g.syncTrustedOnly = some T) (hclamps : Clamps g T i clock)
    (haction : action ∈ (g.computeActionsWithBlp i clock choices).1)
    (ha : action.promotes = some a) : a ∈ T ∨ a ∈ i.localRootMembers := by
  have hfirst : ∀ b, FirstPick i clock g b ∨ b ∈ T → b ∈ T ∨ b ∈ i.localRootMembers := by
    rintro b ((hb | hb | hb) | hb)
    · exact .inr hb
    · exact hclamps.bigLedgerWarm b hb
    · exact hclamps.bigLedgerHot b hb
    · exact .inl hb
  have hbefore : Step i.peers (fun b => b ∈ T ∨ b ∈ i.localRootMembers) (g.begin i clock)
      (g.targetPasses i clock choices) := (step_beforeChurn h).mono hfirst
  have hchurned : Grows i.peers (fun b => b ∈ T ∨ b ∈ i.localRootMembers)
      (g.targetPasses i clock choices) (g.churned i clock choices) := by
    refine grows_churned fun hdue hcount b hbest hcooldown hfresh => ?_
    by_cases hroot : b ∈ i.localRootMembers
    · exact .inr hroot
    rw [hbefore.hotTimer, effectiveHotChurnInterval_eq hbefore.toGrows] at hdue
    rw [inCooldown_eq hbefore.toGrows (notHot_of_ne (by decide) (warm_of_selectBestWarm hbest))
      hroot] at hcooldown
    exact hclamps.hotChurn hdue hcount choices.peers b hbest hcooldown hfresh
  have hall := hbefore.toGrows.trans hchurned
  have hwarm : Adds (fun b => b ∈ T ∨ b ∈ i.localRootMembers) (g.churned i clock choices)
      (warmChurn i clock choices (g.churned i clock choices)) := by
    refine adds_warmChurn fun hdue hbelow b hbest hcooldown => ?_
    by_cases hroot : b ∈ i.localRootMembers
    · exact .inr hroot
    rw [hall.warmTimer, hall.config] at hdue
    rw [hall.config] at hbelow
    rw [inCooldown_eq hall (notHot_of_selectBestColdEligible hbest) hroot] at hcooldown
    exact hclamps.warmChurn hdue hbelow choices.peers b hbest hcooldown
  have hresult : Adds (fun b => b ∈ T ∨ b ∈ i.localRootMembers) (g.begin i clock)
      (discover i choices (warmChurn i clock choices (g.churned i clock choices))) :=
    (hall.toAdds.trans hwarm).trans (adds_discover _)
  rcases hresult.adds action haction with hnone | hS
  · cases hnone
  · exact hS a ha

/-! ### What the passes find -/

theorem mem_keys_of_has {pm : PeerManager} {p : PeerInfo → Bool} (h : pm.has p a = true) :
    a ∈ pm.peers.keys := by
  rw [FinMap.mem_keys]
  unfold has getPeer at h
  cases hpeer : pm.peers.lookup a with
  | none =>
    rw [hpeer] at h
    cases h
  | some _ => rfl

/-- In some order of the peer table the pass promotes the peer. -/
theorem promotes_warmPick (h : WarmPick i clock g a) (hroot : a ∉ i.localRootMembers)
    (horder : choices.peers = .startingWith a) :
    .promoteToWarm a ∈ (g.firstPasses i clock choices).actions := by
  have hroots : Step i.peers (· ∈ i.localRootMembers) (g.begin i clock)
      (localRoots i clock choices (g.begin i clock)) := step_localRoots _
  obtain ⟨hcount, hmem, heligible, hcooldown, hprogress⟩ :=
    (warmPick_iff hroots.toGrows hroot hroot).2 h
  have hwarm : .promoteToWarm a ∈
      (bigLedgerWarm i clock choices (localRoots i clock choices (g.begin i clock))).actions := by
    rw [bigLedgerWarm, peersEligibleToConnect, horder,
      Listing.Enumeration.list_startingWith (mem_keys_of_has heligible),
      filter_cons_of_pos heligible, filter_cons, if_pos (decide_eq_true hmem)]
    exact mem_promoteFrom_head (p := .toWarm) (Nat.sub_pos_of_lt hcount) (by simp [hcooldown])
      hprogress (not_promoted hroots.toGrows hroot)
  have hnonempty := Finset.ne_empty_of_mem hmem
  rw [firstPasses, bigLedger, if_neg hnonempty]
  exact (step_bigLedgerHot _).keeps hwarm

theorem promotes_hotPick (h : HotPick i clock g a) (hroot : a ∉ i.localRootMembers)
    (horder : choices.peers = .startingWith a) :
    .promoteToHot a ∈ (g.firstPasses i clock choices).actions := by
  have hwarm : Step i.peers _ (g.begin i clock) _ := step_rootsAndWarm choices
  -- a warm peer is not eligible, so the pass before has not touched it
  have huntouched : ¬ (a ∈ i.localRootMembers ∨ WarmPick i clock g a) := by
    rintro (hmem | hpick)
    · exact hroot hmem
    · cases h.2.2.1.symm.trans (not_of_eligible (by decide) hpick.2.2.1)
  obtain ⟨hcount, hmem, hstate, hcooldown, hprogress, hfresh⟩ :=
    (hotPick_iff hwarm.toGrows huntouched hroot).2 h
  have hnonempty := Finset.ne_empty_of_mem hmem
  rw [firstPasses, bigLedger, if_neg hnonempty, bigLedgerHot, peersInState,
    horder, Listing.Enumeration.list_startingWith (mem_keys_of_has hstate),
    filter_cons_of_pos hstate, filter_cons, if_pos (decide_eq_true hmem)]
  exact mem_promoteFrom_head (p := .toHot) (Nat.sub_pos_of_lt hcount) (by simp [hcooldown, hfresh])
    hprogress (not_promoted hwarm.toGrows huntouched)

section
variable (h : g.syncTrustedOnly = some T) (hroot : a ∉ i.localRootMembers)
include h hroot

theorem promotes_hotChurn (hdue : clock.hotChurn - g.lastHotChurn ≥ g.effectiveHotChurnInterval)
    (hcount : i.peers.countByState .hot > 1) (hbest : i.peers.selectBestWarm choices.peers = some a)
    (hcooldown : g.inCooldown clock.now a = false) (hfresh : a ∉ i.freshInbound) :
    .promoteToHot a ∈ (g.computeActionsWithBlp i clock choices).1 := by
  have hbefore : Step i.peers _ (g.begin i clock) (g.targetPasses i clock choices) :=
    step_beforeChurn h
  have hout : Step i.peers (fun _ => True) _
      (rotateHotOut i clock choices (g.targetPasses i clock choices)) := step_rotateHotOut _
  have hwarm := notHot_of_ne (by decide) (warm_of_selectBestWarm hbest)
  rw [← inCooldown_eq hbefore.toGrows hwarm hroot, ← hout.cooldown clock.now a hwarm] at hcooldown
  refine keeps_result ((grows_coldChurn (S := fun _ => True) _).keeps ?_)
  rw [hotChurn]
  split
  · rw [rotateHotIn, hbest]
    dsimp only
    rw [if_pos ⟨hcooldown, hfresh⟩]
    exact mem_append_right _ (mem_singleton_self _)
  · next hnot =>
    rw [hbefore.hotTimer, effectiveHotChurnInterval_eq hbefore.toGrows] at hnot
    exact absurd ⟨hdue, hcount⟩ hnot

theorem promotes_warmChurn (hdue : clock.warmChurn - g.lastWarmChurn ≥ g.config.warmChurnInterval)
    (hbelow : i.peers.countByState .warm < g.config.targets.targetWarm)
    (hbest : i.peers.selectBestColdEligible choices.peers clock.churnEligible = some a)
    (hcooldown : g.inCooldown clock.now a = false) :
    .promoteToWarm a ∈ (g.computeActionsWithBlp i clock choices).1 := by
  have hbefore : Step i.peers (fun _ => True) (g.begin i clock) (g.targetPasses i clock choices) :=
    (step_beforeChurn h).mono fun _ _ => trivial
  have hall := hbefore.toGrows.trans (grows_churned fun _ _ _ _ _ _ => trivial)
  have hout : Step i.peers (fun _ => True) _
      (rotateWarmOut i choices (g.churned i clock choices)) := step_rotateWarmOut _
  have hcold := notHot_of_selectBestColdEligible hbest
  rw [← inCooldown_eq hall hcold hroot, ← hout.cooldown clock.now a hcold] at hcooldown
  refine (adds_discover (S := fun _ => True) _).keeps ?_
  rw [warmChurn]
  split
  · rw [rotateWarmIn, hbest, hout.config, hall.config]
    dsimp only
    rw [if_pos hcooldown]
    split
    · exact mem_append_right _ (mem_singleton_self _)
    · next hnot => exact absurd hbelow hnot
  · next hnot =>
    rw [hall.warmTimer, hall.config] at hnot
    exact absurd hdue hnot

end

/-- While the restriction is set, the governor promotes only trusted peers and local roots, in
whatever order the peers are listed, if and only if no pass that skips the restriction finds another
peer. -/
theorem clamp_holds_iff (h : g.syncTrustedOnly = some T) :
    (∀ choices, ∀ action ∈ (g.computeActionsWithBlp i clock choices).1, ∀ a,
      action.promotes = some a → a ∈ T ∨ a ∈ i.localRootMembers) ↔ Clamps g T i clock := by
  constructor
  · intro hall
    have hclear : ∀ {a}, (a ∉ i.localRootMembers → ∃ choices,
        ∃ action ∈ (g.computeActionsWithBlp i clock choices).1, action.promotes = some a) →
        a ∈ T ∨ a ∈ i.localRootMembers := by
      intro a hmade
      by_cases hroot : a ∈ i.localRootMembers
      · exact .inr hroot
      obtain ⟨choices, action, hmem, ha⟩ := hmade hroot
      exact hall choices action hmem a ha
    have hfirst : ∀ {choices action}, action ∈ (g.firstPasses i clock choices).actions →
        action ∈ (g.computeActionsWithBlp i clock choices).1 :=
      fun hmem => keeps_result (keeps_churned ((step_targetPasses h).keeps hmem))
    let listing (order : Listing.Enumeration SocketAddr) : Choices :=
      ⟨order, fun _ => order, order, 0⟩
    constructor
    · exact fun a hpick => hclear fun hroot => ⟨listing (.startingWith a), _,
        hfirst (promotes_warmPick hpick hroot rfl), rfl⟩
    · exact fun a hpick => hclear fun hroot => ⟨listing (.startingWith a), _,
        hfirst (promotes_hotPick hpick hroot rfl), rfl⟩
    · exact fun hdue hcount order a hbest hcooldown hfresh => hclear fun hroot => ⟨listing order, _,
        promotes_hotChurn h hroot hdue hcount hbest hcooldown hfresh, rfl⟩
    · exact fun hdue hbelow order a hbest hcooldown => hclear fun hroot => ⟨listing order, _,
        promotes_warmChurn h hroot hdue hbelow hbest hcooldown, rfl⟩
  · intro hclamps choices action haction a ha
    exact promotes_of_clamps h hclamps haction ha

def relay (port : UInt16) : SocketAddr := .v4 0x01020304#32 port

/-- A governor that has been told to trust one peer. -/
def restricted : Governor := { syncTrustedOnly := some {relay 1} }

/-- A clock that stands still. -/
def still : Clock := ⟨0, 0, 0, 0, 0, 0, 0, 0, 0⟩

/-- A trusted cold peer and another one. -/
def twoCold : PeerManager where
  peers := ((∅ : FinMap SocketAddr PeerInfo).insert (relay 1) { source := .dns }).insert (relay 2)
    { source := .dns }

/-- The trusted peer is a big ledger peer, and the other one has to wait before it is tried. -/
def oneWaiting : Inputs where
  peers := ⟨twoCold.peers.insert (relay 2) { source := .dns, nextConnectAfter := some 5000 }⟩
  bigLedgerPeers := {relay 1}

/-- A clock at which the timer of warm churn has fired. -/
def later : Clock := ⟨1000, 1000, 1000, 1000, 1000, 1000, 1000, 1000, 1000⟩

/-- The pass for the big ledger peers and warm churn find the trusted peer only. -/
theorem oneWaiting_clamped : WarmPick oneWaiting later restricted (relay 1) ∧
    later.warmChurn - restricted.lastWarmChurn ≥ restricted.config.warmChurnInterval ∧
    ∀ choices, ∀ action ∈ (restricted.computeActionsWithBlp oneWaiting later choices).1,
      ∀ a, action.promotes = some a → a ∈ ({relay 1} : Finset SocketAddr) ∨
        a ∈ oneWaiting.localRootMembers := by
  have honly : ∀ a, oneWaiting.peers.has (PeerManager.eligible 1000) a = true → a = relay 1 := by
    intro a ha
    rw [PeerManager.has, PeerManager.getPeer, oneWaiting, twoCold] at ha
    simp only [FinMap.lookup_insert_ite] at ha
    split at ha
    · exact absurd ha (by decide)
    · split at ha
      · next h => exact h
      · cases ha
  refine ⟨by refine ⟨?_, ?_, ?_, ?_, ?_⟩ <;> decide +kernel, by decide,
    (clamp_holds_iff rfl).2 ⟨?_, ?_, ?_, ?_⟩⟩
  · rintro a ⟨-, hmem, -⟩
    exact .inl hmem
  · rintro a ⟨-, hmem, -⟩
    exact .inl hmem
  · intro hdue
    exact absurd hdue (by decide)
  · intro _ _ order a hbest _
    exact .inl (Finset.mem_singleton.2 (honly a (eligible_of_selectBestColdEligible hbest)))

/-- The second peer is a big ledger peer. -/
def oneBigLedgerPeer : Inputs := { peers := twoCold, bigLedgerPeers := {relay 2} }

/-- It is promoted although it is neither trusted nor a local root. -/
theorem bigLedgerPeer_promoted : restricted.syncTrustedOnly = some {relay 1} ∧
    ¬ ∀ choices, ∀ action ∈ (restricted.computeActionsWithBlp oneBigLedgerPeer still choices).1,
      ∀ a, action.promotes = some a → a ∈ ({relay 1} : Finset SocketAddr) ∨
        a ∈ oneBigLedgerPeer.localRootMembers := by
  refine ⟨rfl, fun hall => ?_⟩
  have hpick : WarmPick oneBigLedgerPeer still restricted (relay 2) := by
    refine ⟨?_, ?_, ?_, ?_, ?_⟩ <;> decide +kernel
  let order := Listing.Enumeration.startingWith (relay 2)
  have hfirst : .promoteToWarm (relay 2) ∈
      (restricted.firstPasses oneBigLedgerPeer still ⟨order, fun _ => order, order, 0⟩).actions :=
    promotes_warmPick hpick (by decide) rfl
  have hmem := keeps_result (keeps_churned ((step_targetPasses rfl).keeps hfirst))
  rcases hall _ _ hmem (relay 2) rfl with htrusted | hroot
  · exact absurd htrusted (by decide)
  · exact absurd hroot (by decide)

end Dugite.Peers
