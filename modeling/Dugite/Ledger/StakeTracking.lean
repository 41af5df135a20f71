import Dugite.Ledger.Stake

/-!
# The stake maps follow the UTxO set

`Tracks s`: the maps of `s` hold, at each stake credential and pointer, the coins that the outputs of
the set have there. Every transaction keeps it (`Tracks.step`), so that nothing is ever clipped, and
so does every block; the maps that `apply_utxo_diff` makes out of the diff of a block are the same.
-/

namespace Dugite

open Journal StakeMaps TransactionInput TxStep

variable (excludePtrs : Bool)

/-- The maps hold what the set holds. -/
def Tracks (s : StakedUtxo) : Prop :=
  ∀ key, s.maps.stakeAt key = s.utxo.utxoSet.total (stakeWeight excludePtrs key)

/-- At each key the coins of the set and of all outputs a block creates fit into a `u64`. -/
def BlockFits (u : UtxoSet) (steps : List TxStep) : Prop :=
  ∀ key, u.total (stakeWeight excludePtrs key) +
    weightIn (stakeWeight excludePtrs key) (steps.flatMap created) ≤ u64Max

/-- Whether a subtraction of some transactions is clipped. -/
def clipsInSteps : StakedUtxo → List TxStep → Bool
  | _, [] => false
  | s, step :: steps => clipsAlong excludePtrs s.maps (step.spent s) ||
      clipsInSteps (step.apply excludePtrs s).1 steps

def clipsInBlocks : StakedUtxo → List (List TxStep) → Bool
  | _, [] => false
  | s, block :: blocks => clipsInSteps excludePtrs s block ||
      clipsInBlocks (applyTxSteps excludePtrs s block).1 blocks

def applyTxBlocks (s : StakedUtxo) (blocks : List (List TxStep)) : StakedUtxo :=
  blocks.foldl (fun s block => (applyTxSteps excludePtrs s block).1) s

/-- Replay the diffs of the blocks on another copy. -/
def replayBlocks : StakedUtxo → UtxoSet × StakeMaps → List (List TxStep) → UtxoSet × StakeMaps
  | _, copy, [] => copy
  | s, copy, block :: blocks =>
    let next := applyTxSteps excludePtrs s block
    replayBlocks next.1 (applyUtxoDiff excludePtrs next.2 copy) blocks

/-- Each block fits the state it is applied to. -/
def FitsAlong : StakedUtxo → List (List TxStep) → Prop
  | _, [] => True
  | s, block :: blocks => BlockFits excludePtrs s.utxo.utxoSet block ∧
      FitsAlong (applyTxSteps excludePtrs s block).1 blocks

def stepIds (steps : List TxStep) : List Hash32 := steps.map (·.tx.hash)

variable {excludePtrs}

/-! ## One transaction -/

variable {s : StakedUtxo} {steps : List TxStep} {u : UtxoSet}

theorem Tracks.noClip {step : TxStep} (h : Tracks excludePtrs s)
    (hspec : StepSpec excludePtrs s step) :
    clipsAlong excludePtrs s.maps (step.spent s) = false :=
  clipsAlong_eq_false fun key => (h key).symm ▸ hspec.spent_le _

theorem fits_after_sub {step : TxStep} (h : Tracks excludePtrs s)
    (hfits : BlockFits excludePtrs s.utxo.utxoSet [step]) (key : StakeKey) :
    (s.maps.subAll excludePtrs (step.spent s)).stakeAt key +
      weightIn (stakeWeight excludePtrs key) step.created ≤ u64Max := by
  have hkey := hfits key
  rw [List.flatMap_singleton] at hkey
  rw [stakeAt_subAll, h key]
  omega

theorem Tracks.step {step : TxStep} (h : Tracks excludePtrs s) (hspec : StepSpec excludePtrs s step)
    (hfits : BlockFits excludePtrs s.utxo.utxoSet [step]) :
    Tracks excludePtrs (step.apply excludePtrs s).1 := by
  intro key
  have haccounts := hspec.accounts (stakeWeight excludePtrs key)
  have hspent := hspec.spent_le (stakeWeight excludePtrs key)
  rw [hspec.inserts, hspec.deletes] at haccounts
  rw [hspec.maps, stakeAt_addAll (fits_after_sub h hfits), stakeAt_subAll, h key]
  omega

/-! ## One block -/

theorem applyTxSteps_cons (s : StakedUtxo) (step : TxStep) (steps : List TxStep) :
    applyTxSteps excludePtrs s (step :: steps) =
      ((applyTxSteps excludePtrs (step.apply excludePtrs s).1 steps).1,
        (step.apply excludePtrs s).2.merge
          (applyTxSteps excludePtrs (step.apply excludePtrs s).1 steps).2) := by
  have hfoldl (s : StakedUtxo) (d : UtxoDiff) : steps.foldl (fun acc step =>
      let next := step.apply excludePtrs acc.1
      (next.1, acc.2.merge next.2)) (s, d) =
      ((applyTxSteps excludePtrs s steps).1, d.merge (applyTxSteps excludePtrs s steps).2) := by
    induction steps generalizing s d with
    | nil => simp [applyTxSteps, merge]
    | cons step steps ih =>
      rw [applyTxSteps, List.foldl_cons, List.foldl_cons]
      rw [ih, ih]
      simp [merge]
  refine (hfoldl _ _).trans ?_
  simp [merge]

/-- What a block does. -/
structure BlockSpec (excludePtrs : Bool) (s : StakedUtxo) (steps : List TxStep) : Prop where
  inserts : (applyTxSteps excludePtrs s steps).2.inserts = steps.flatMap created
  accounts : Accounts s.utxo.utxoSet (applyTxSteps excludePtrs s steps).2
    (applyTxSteps excludePtrs s steps).1.utxo.utxoSet
  effect : Effect (stepIds steps) s.utxo.utxoSet (applyTxSteps excludePtrs s steps).2
    (applyTxSteps excludePtrs s steps).1.utxo.utxoSet
  tracks : Tracks excludePtrs (applyTxSteps excludePtrs s steps).1
  keys : ∀ key, ((applyTxSteps excludePtrs s steps).1.maps.lookup key).isSome =
    ((s.maps.lookup key).isSome || (steps.flatMap created).any fun e =>
      stakeRouting e.2.address excludePtrs = some key)
  noClip : clipsInSteps excludePtrs s steps = false

theorem blockSpec (h : Tracks excludePtrs s)
    (hids : (stepIds steps).Nodup) (hfresh : Fresh (stepIds steps) s.utxo.utxoSet)
    (hcount : ∀ step ∈ steps, step.tx.body.outputs.length ≤ 2 ^ 32)
    (hfits : BlockFits excludePtrs s.utxo.utxoSet steps) : BlockSpec excludePtrs s steps := by
  induction steps generalizing s with
  | nil =>
    exact ⟨rfl, Accounts.nil _, Effect.nil _ _, h, fun key => by simp [applyTxSteps], rfl⟩
  | cons step steps ih =>
    obtain ⟨hnew, hids⟩ := List.nodup_cons.1 hids
    have hspec : StepSpec excludePtrs s step := by
      have hone : Fresh [step.tx.hash] s.utxo.utxoSet := fun k hk =>
        hfresh k (List.mem_cons.2 (.inl (List.mem_singleton.1 hk)))
      cases step with
      | valid tx => exact stepSpec_valid excludePtrs hone (hcount _ List.mem_cons_self)
      | failed tx => exact stepSpec_failed excludePtrs hone
    have hsplit : ∀ key, weightIn (stakeWeight excludePtrs key)
        ((step :: steps).flatMap created) = weightIn (stakeWeight excludePtrs key) step.created +
            weightIn (stakeWeight excludePtrs key) (steps.flatMap created) := by
      intro key
      rw [List.flatMap_cons, weightIn_append]
    have hstepFits : BlockFits excludePtrs s.utxo.utxoSet [step] := by
      intro key
      have hkey := hfits key
      rw [hsplit] at hkey
      rw [List.flatMap_singleton]
      omega
    have hlater : Fresh (stepIds steps) s.utxo.utxoSet := fun k hk =>
      hfresh k (List.mem_cons_of_mem _ hk)
    have hrest : BlockSpec excludePtrs (step.apply excludePtrs s).1 steps := by
      refine ih (h.step hspec hstepFits) hids (hspec.effect.fresh ?_ hlater)
        (fun step' hstep' => hcount step' (List.mem_cons_of_mem _ hstep')) fun key => ?_
      · intro id hid
        rw [List.mem_singleton.1 hid]
        exact hnew
      · have hkey := hfits key
        have haccounts := hspec.accounts (stakeWeight excludePtrs key)
        rw [hsplit] at hkey
        rw [hspec.inserts] at haccounts
        omega
    refine ⟨?_, ?_, ?_, ?_, ?_, ?_⟩
    · rw [applyTxSteps_cons, merge, hspec.inserts, hrest.inserts, List.flatMap_cons]
    · rw [applyTxSteps_cons]
      exact hspec.accounts.merge hrest.accounts
    · rw [applyTxSteps_cons]
      exact hspec.effect.append hrest.effect hlater
    · rw [applyTxSteps_cons]
      exact hrest.tracks
    · intro key
      rw [applyTxSteps_cons, hrest.keys, hspec.maps, isSome_addAll (fits_after_sub h hstepFits),
        isSome_subAll, List.flatMap_cons, List.any_append, Bool.or_assoc]
    · rw [clipsInSteps, h.noClip hspec, hrest.noClip]
      rfl

/-- The diff of a block gives the same maps. -/
theorem BlockSpec.replay (hspec : BlockSpec excludePtrs s steps) (h : Tracks excludePtrs s)
    (hfits : BlockFits excludePtrs s.utxo.utxoSet steps) :
    (s.maps.addAll excludePtrs (applyTxSteps excludePtrs s steps).2.inserts).subAll excludePtrs
        (applyTxSteps excludePtrs s steps).2.deletes =
      (applyTxSteps excludePtrs s steps).1.maps := by
  have hadd : ∀ key, s.maps.stakeAt key + weightIn (stakeWeight excludePtrs key)
      (applyTxSteps excludePtrs s steps).2.inserts ≤ u64Max := by
    intro key
    rw [h key, hspec.inserts]
    exact hfits key
  refine ext_lookup fun key => lookup_eq_of_stakeAt ?_ ?_
  · rw [isSome_subAll, isSome_addAll hadd, hspec.keys, hspec.inserts]
  · have haccounts := hspec.accounts (stakeWeight excludePtrs key)
    rw [stakeAt_subAll, stakeAt_addAll hadd, hspec.tracks key, h key]
    omega

/-! ## The maps rebuilt -/

theorem weightIn_entries (u : UtxoSet) (f : TransactionOutput → Nat) :
    weightIn f (Listing.entries rank rank_injective u) = u.total f :=
  Listing.sum_entries _ f u

/-- Entries of zero change no stake. -/
theorem getD_lookup_openEntries (hashes : List Hash32) (m : FinMap Hash32 Nat) (hash : Hash32) :
    ((openEntries hashes m).lookup hash).getD 0 = (m.lookup hash).getD 0 := by
  induction hashes generalizing m with
  | nil => rfl
  | cons hash' hashes ih =>
    refine (ih _).trans ?_
    dsimp only
    split
    · rfl
    next hnone =>
    rw [FinMap.lookup_insert_ite]
    split
    · next heq =>
      rw [heq, Option.not_isSome_iff_eq_none.1 hnone]
      rfl
    · rfl

theorem stakeAt_rebuild (u : UtxoSet) (delegations : FinMap Hash32 Hash28) (key : StakeKey) :
    (rebuildStakeDistribution excludePtrs u delegations).stakeAt key =
      (({} : StakeMaps).addAll excludePtrs
        (Listing.entries rank rank_injective u)).stakeAt key := by
  cases key with
  | pointer ptr => rfl
  | credential hash => exact getD_lookup_openEntries _ _ hash

theorem stakeAt_rebuild_of_fits (hfits : ∀ key, u.total (stakeWeight excludePtrs key) ≤ u64Max)
    (delegations : FinMap Hash32 Hash28) (key : StakeKey) :
    (rebuildStakeDistribution excludePtrs u delegations).stakeAt key =
      u.total (stakeWeight excludePtrs key) := by
  have hzero : ∀ key, ({} : StakeMaps).stakeAt key = 0 := by
    intro key
    cases key <;> simp [stakeAt, lookup]
  rw [stakeAt_rebuild, stakeAt_addAll, hzero, weightIn_entries, Nat.zero_add]
  intro key
  rw [hzero, weightIn_entries, Nat.zero_add]
  exact hfits key

/-! ## Runs -/

/-- The maps before and after some blocks that fit. -/
theorem tracks_applyTxBlocks {blocks : List (List TxStep)}
    (h : Tracks excludePtrs s) (hids : (stepIds blocks.flatten).Nodup)
    (hfresh : Fresh (stepIds blocks.flatten) s.utxo.utxoSet)
    (hcount : ∀ step ∈ blocks.flatten, step.tx.body.outputs.length ≤ 2 ^ 32)
    (hstart : ∀ key, s.utxo.utxoSet.total (stakeWeight excludePtrs key) ≤ u64Max)
    (hfits : FitsAlong excludePtrs s blocks) (copy : UtxoSet) :
    Tracks excludePtrs (applyTxBlocks excludePtrs s blocks) ∧
      (∀ key, (applyTxBlocks excludePtrs s blocks).utxo.utxoSet.total (stakeWeight excludePtrs key) ≤
        u64Max) ∧
      clipsInBlocks excludePtrs s blocks = false ∧
      (replayBlocks excludePtrs s (copy, s.maps) blocks).2 =
        (applyTxBlocks excludePtrs s blocks).maps := by
  induction blocks generalizing s copy with
  | nil => exact ⟨h, hstart, rfl, rfl⟩
  | cons block blocks ih =>
    have hsplit : stepIds (block :: blocks).flatten = stepIds block ++ stepIds blocks.flatten := by
      simp [stepIds]
    rw [hsplit] at hids hfresh
    obtain ⟨hblockIds, hlaterIds, hdisjoint⟩ := List.nodup_append'.1 hids
    have hspec := blockSpec h hblockIds (fun k hk => hfresh k (List.mem_append_left _ hk))
        (fun step hstep => hcount step (List.mem_append_left _ hstep)) hfits.1
    have hlater := hspec.effect.fresh hdisjoint fun k hk => hfresh k (List.mem_append_right _ hk)
    have hmaps : applyUtxoDiff excludePtrs (applyTxSteps excludePtrs s block).2 (copy, s.maps) =
        ((applyUtxoDiff excludePtrs (applyTxSteps excludePtrs s block).2 (copy, s.maps)).1,
          (applyTxSteps excludePtrs s block).1.maps) := by
      refine Prod.ext rfl ?_
      rw [applyUtxoDiff_maps]
      exact hspec.replay h hfits.1
    have hnext : ∀ key, (applyTxSteps excludePtrs s block).1.utxo.utxoSet.total
        (stakeWeight excludePtrs key) ≤ u64Max := by
      intro key
      have haccounts := hspec.accounts (stakeWeight excludePtrs key)
      have hkey := hfits.1 key
      rw [hspec.inserts] at haccounts
      omega
    obtain ⟨htracks, hend, hclips, hreplay⟩ := ih hspec.tracks hlaterIds hlater
      (fun step hstep => hcount step (List.mem_append_right _ hstep)) hnext hfits.2
      (applyUtxoDiff excludePtrs (applyTxSteps excludePtrs s block).2 (copy, s.maps)).1
    refine ⟨htracks, hend, ?_, ?_⟩
    · rw [clipsInBlocks, hspec.noClip, hclips]
      rfl
    · rw [replayBlocks, hmaps]
      exact hreplay

/-- Blocks of valid and failed transactions with ids of their own, from a state whose maps are the
rebuilt ones: afterwards the maps are again the rebuilt ones, up to entries of zero, no subtraction
was clipped, and replaying the diffs of the blocks gives the same maps. The coins at each credential
and pointer, those of all outputs of the next block included, have to fit into a `u64`. -/
theorem incremental_stake_is_rebuilt (excludePtrs : Bool) (s : StakedUtxo)
    (blocks : List (List TxStep)) (delegations : FinMap Hash32 Hash28)
    (hconsistent : ∀ key, s.maps.stakeAt key =
      (rebuildStakeDistribution excludePtrs s.utxo.utxoSet delegations).stakeAt key)
    (hids : (stepIds blocks.flatten).Nodup) (hfresh : Fresh (stepIds blocks.flatten) s.utxo.utxoSet)
    (hcount : ∀ step ∈ blocks.flatten, step.tx.body.outputs.length ≤ 2 ^ 32)
    (hfits : FitsAlong excludePtrs s blocks) :
    (∀ delegations' key, (applyTxBlocks excludePtrs s blocks).maps.stakeAt key =
        (rebuildStakeDistribution excludePtrs (applyTxBlocks excludePtrs s blocks).utxo.utxoSet
          delegations').stakeAt key) ∧
      clipsInBlocks excludePtrs s blocks = false ∧
      (replayBlocks excludePtrs s (s.utxo.utxoSet, s.maps) blocks).2 =
        (applyTxBlocks excludePtrs s blocks).maps := by
  cases blocks with
  | nil =>
    refine ⟨fun delegations' key => ?_, rfl, rfl⟩
    refine (hconsistent key).trans ?_
    rw [stakeAt_rebuild, stakeAt_rebuild]
    rfl
  | cons block blocks =>
  have hstart : ∀ key, s.utxo.utxoSet.total (stakeWeight excludePtrs key) ≤ u64Max := fun key =>
    (Nat.le_add_right _ _).trans (hfits.1 key)
  have htracks : Tracks excludePtrs s := fun key =>
    (hconsistent key).trans (stakeAt_rebuild_of_fits hstart delegations key)
  obtain ⟨hafter, hend, hclips, hreplay⟩ :=
    tracks_applyTxBlocks htracks hids hfresh hcount hstart hfits s.utxo.utxoSet
  refine ⟨fun delegations' key => ?_, hclips, hreplay⟩
  rw [hafter key, stakeAt_rebuild_of_fits hend]

/-! ## Two runs -/

/-- A block fits when all its coins and those of the set do. -/
theorem blockFits_of_coins
    (h : u.total (·.value.coin) + weightIn (·.value.coin) (steps.flatMap created) ≤ u64Max) :
    BlockFits excludePtrs u steps := by
  intro key
  have hweight : ∀ output, stakeWeight excludePtrs key output ≤ output.value.coin := by
    intro output
    unfold stakeWeight
    split
    · exact Nat.le_refl _
    · exact Nat.zero_le _
  have hset := FinMap.total_mono hweight u
  have hcreated : weightIn (stakeWeight excludePtrs key) (steps.flatMap created) ≤
      weightIn (·.value.coin) (steps.flatMap created) := by
    refine List.sum_le_sum fun e _ => ?_
    exact hweight e.2
  omega

/-- An output at a base address, with the stake of one credential. -/
def stakedOutput (coin : Nat) : TransactionOutput where
  address := .base .testnet (.verificationKey 1) (.verificationKey 2)
  value := .lovelace coin

/-- A state with one such output and the maps it asks for. -/
def oneOutput (coin : Nat) : StakedUtxo :=
  let utxoSet : UtxoSet := Finmap.insert ⟨1, 0⟩ (stakedOutput coin) ∅
  ⟨{ utxoSet }, rebuildStakeDistribution false utxoSet ∅⟩

def payment (hash : Hash32) (inputs : List TransactionInput) (coins : List Nat) : TxStep :=
  .valid { hash, body := { inputs, outputs := coins.map stakedOutput, fee := 0 }, witnessSet := {} }

theorem fresh_oneOutput {ids : List Hash32} (h : 1 ∉ ids) (coin : Nat) :
    Fresh ids (oneOutput coin).utxo.utxoSet := by
  intro k hk
  refine (FinMap.lookup_insert_ite _ _ _ _).trans (if_neg ?_)
  rintro rfl
  exact h hk

theorem two_payments_tracked :
    clipsInBlocks false (oneOutput 5) [[payment 2 [⟨1, 0⟩, ⟨1, 0⟩] [3, 2], payment 3 [⟨2, 1⟩] [2]]] =
      false :=
  (incremental_stake_is_rebuilt false (oneOutput 5)
    [[payment 2 [⟨1, 0⟩, ⟨1, 0⟩] [3, 2], payment 3 [⟨2, 1⟩] [2]]] ∅ (fun _ => rfl)
    (by decide) (fresh_oneOutput (by decide) 5) (by decide)
    ⟨blockFits_of_coins (by decide +kernel), trivial⟩).2.1

/-- The credential of these outputs. -/
def stakedKey : StakeKey := .credential (Credential.verificationKey 2).toTypedHash32

/-- A block that passes the largest output on twice. -/
def passedOn : List (List TxStep) := [[payment 2 [⟨1, 0⟩] [u64Max], payment 3 [⟨2, 0⟩] [u64Max]]]

/-- A block that adds an output to it, and one that spends it. -/
def addedTo : List (List TxStep) := [[payment 2 [] [5]], [payment 3 [⟨1, 0⟩] []]]

/-- More than a `u64` can hold at one credential. When a block passes the largest output on, applying
it keeps the stake, while replaying its diff counts three outputs before it takes two off and loses
the stake. With another output beside it, spending the largest one leaves no stake, although the
other output is there. -/
theorem overflowing_stake_drifts :
    ((applyTxBlocks false (oneOutput u64Max) passedOn).maps.stakeAt stakedKey = u64Max ∧
        (replayBlocks false (oneOutput u64Max)
          ((oneOutput u64Max).utxo.utxoSet, (oneOutput u64Max).maps) passedOn).2.stakeAt stakedKey =
            0) ∧
      (applyTxBlocks false (oneOutput u64Max) addedTo).maps.stakeAt stakedKey = 0 ∧
      (rebuildStakeDistribution false
        (applyTxBlocks false (oneOutput u64Max) addedTo).utxo.utxoSet ∅).stakeAt stakedKey = 5 := by
  decide +kernel

end Dugite
