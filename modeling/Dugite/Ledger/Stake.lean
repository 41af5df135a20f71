import Dugite.Ledger.UtxoDiff
import Dugite.Lib.Listing
import Mathlib.Data.Prod.Lex

/-!
# The stake of the unspent outputs

Beside the UTxO set the ledger keeps, for each stake credential and each stake pointer, the coins
that its outputs hold. `apply_utxo_changes` and `apply_collateral_consumption` keep these maps as
they go, `rebuild_stake_distribution` computes them from the set, and `apply_utxo_diff` replays them
from the diff of a block, inserts first.

A subtraction that would go below zero stops there, an addition to a credential stops at the
largest `u64`, and an addition to a pointer wraps. As long as the coins at each credential and
pointer fit into a `u64`, none of that happens and the three ways agree
(`incremental_stake_is_rebuilt`).
-/

namespace Dugite

open Journal List TransactionInput Listing

/-! ## The maps -/

/-- What the stake of an output counts for. -/
inductive StakeKey where
  | credential (hash : Hash32)
  | pointer (ptr : Pointer)
  deriving DecidableEq

/-- `stake_routing`; `StakeRouting::None` is `none`. From Conway on the stake at pointers does not
count. -/
def stakeRouting (address : Address) (excludePtrs : Bool) : Option StakeKey :=
  match address with
  | .base _ _ stake => some (.credential stake.toTypedHash32)
  | .reward _ stake => some (.credential stake.toTypedHash32)
  | .pointer _ _ ptr => if excludePtrs then none else some (.pointer ptr)
  | .enterprise _ _ => none
  | .byron _ => none

/-- `stake_map` and `ptr_stake`. -/
structure StakeMaps where
  stakeMap : FinMap Hash32 Nat := ∅
  ptrStake : FinMap Pointer Nat := ∅

namespace StakeMaps

section
variable (excludePtrs : Bool) (m : StakeMaps) (output : TransactionOutput)

/-- Count a new output. -/
def add : StakeMaps :=
  let coin := output.value.coin
  match stakeRouting output.address excludePtrs with
  | some (.credential hash) =>
    { m with stakeMap := m.stakeMap.insert hash (satAdd ((m.stakeMap.lookup hash).getD 0) coin) }
  | some (.pointer ptr) =>
    { m with ptrStake := m.ptrStake.insert ptr (wrapAdd ((m.ptrStake.lookup ptr).getD 0) coin) }
  | none => m

/-- Take a spent output off. -/
def sub : StakeMaps :=
  let coin := output.value.coin
  match stakeRouting output.address excludePtrs with
  | some (.credential hash) =>
    match m.stakeMap.lookup hash with
    | some stake => { m with stakeMap := m.stakeMap.insert hash (satSub stake coin) }
    | none => m
  | some (.pointer ptr) =>
    match m.ptrStake.lookup ptr with
    | some stake => { m with ptrStake := m.ptrStake.insert ptr (satSub stake coin) }
    | none => m
  | none => m

end

variable (excludePtrs : Bool)

def addAll (created : List (TransactionInput × TransactionOutput)) (m : StakeMaps) : StakeMaps :=
  created.foldl (fun m e => m.add excludePtrs e.2) m

def subAll (spent : List (TransactionInput × TransactionOutput)) (m : StakeMaps) : StakeMaps :=
  spent.foldl (fun m e => m.sub excludePtrs e.2) m

/-- The entry of a key. -/
def lookup (m : StakeMaps) : StakeKey → Option Nat
  | .credential hash => m.stakeMap.lookup hash
  | .pointer ptr => m.ptrStake.lookup ptr

/-- The stake of a key; an entry of zero is no different from none. -/
def stakeAt (m : StakeMaps) (key : StakeKey) : Nat := (m.lookup key).getD 0

/-- Whether taking an output off would go below zero. -/
def clips (m : StakeMaps) (output : TransactionOutput) : Bool :=
  (stakeRouting output.address excludePtrs).any fun key => m.stakeAt key < output.value.coin

/-- Whether that happens while some outputs are taken off one after the other. -/
def clipsAlong (excludePtrs : Bool) : StakeMaps → List (TransactionInput × TransactionOutput) → Bool
  | _, [] => false
  | m, e :: spent => m.clips excludePtrs e.2 || clipsAlong excludePtrs (m.sub excludePtrs e.2) spent

end StakeMaps

/-! ## The three ways to keep them -/

/-- The UTxO sub-state with the maps. -/
structure StakedUtxo where
  utxo : UtxoSubState
  maps : StakeMaps

/-- `apply_utxo_changes` on both. -/
def StakedUtxo.applyUtxoChanges (excludePtrs : Bool) (tx : Transaction) (s : StakedUtxo) :
    StakedUtxo × UtxoDiff :=
  let spent := spentOutputs tx.body.inputs s.utxo.utxoSet
  let maps := s.maps.subAll excludePtrs spent
  let (utxo, diff) := Dugite.applyUtxoChanges tx s.utxo
  (⟨utxo, tx.body.outputs.foldl (fun m output => m.add excludePtrs output) maps⟩, diff)

/-- The loop over the collateral, on the set and the maps. -/
def consumeStaked (excludePtrs : Bool) (inputs : List TransactionInput)
    (acc : UtxoSet × StakeMaps) : UtxoSet × StakeMaps :=
  inputs.foldl (fun acc input =>
    match acc.1.lookup input with
    | some spent => (acc.1.erase input, acc.2.sub excludePtrs spent)
    | none => (acc.1.erase input, acc.2)) acc

/-- `apply_collateral_consumption` on both. -/
def StakedUtxo.applyCollateralConsumption (excludePtrs : Bool) (tx : Transaction)
    (s : StakedUtxo) : StakedUtxo × UtxoDiff :=
  let consumed := consumeStaked excludePtrs tx.body.collateral.eraseDups (s.utxo.utxoSet, s.maps)
  let maps := match tx.body.collateralReturn with
    | some output => consumed.2.add excludePtrs output
    | none => consumed.2
  let (utxo, diff) := Dugite.applyCollateralConsumption tx s.utxo
  (⟨utxo, maps⟩, diff)

/-- A transaction of a block: one that is valid, or one whose collateral is taken. -/
inductive TxStep where
  | valid (tx : Transaction)
  | failed (tx : Transaction)

namespace TxStep

def tx : TxStep → Transaction
  | valid tx => tx
  | failed tx => tx

def apply (excludePtrs : Bool) (s : StakedUtxo) : TxStep → StakedUtxo × UtxoDiff
  | valid tx => s.applyUtxoChanges excludePtrs tx
  | failed tx => s.applyCollateralConsumption excludePtrs tx

/-- The outputs that the step takes off the maps. -/
def spent (s : StakedUtxo) : TxStep → List (TransactionInput × TransactionOutput)
  | valid tx => spentOutputs tx.body.inputs s.utxo.utxoSet
  | failed tx => spentOutputs tx.body.collateral s.utxo.utxoSet

end TxStep

variable (excludePtrs : Bool)

/-- The transactions of a block, with the diff of the block. -/
def applyTxSteps (s : StakedUtxo) (steps : List TxStep) : StakedUtxo × UtxoDiff :=
  steps.foldl (fun acc step =>
    let next := step.apply excludePtrs acc.1
    (next.1, acc.2.merge next.2)) (s, {})

/-- `apply_utxo_diff`: the inserts first, then the deletes. -/
def applyUtxoDiff (diff : UtxoDiff) (s : UtxoSet × StakeMaps) : UtxoSet × StakeMaps :=
  let inserted := diff.inserts.foldl
    (fun acc e => (acc.1.insert e.1 e.2, acc.2.add excludePtrs e.2)) s
  diff.deletes.foldl (fun acc e => (acc.1.erase e.1, acc.2.sub excludePtrs e.2)) inserted

/-- The order of the scan; the result does not depend on it. -/
def TransactionInput.rank (input : TransactionInput) : Nat ×ₗ Nat :=
  toLex (input.transactionId.toNat, input.index.toNat)

theorem TransactionInput.rank_injective : Function.Injective rank := by
  rintro ⟨tx, idx⟩ ⟨tx', idx'⟩ h
  have hpair := Prod.mk.inj (toLex.injective h)
  obtain rfl : tx = tx' := BitVec.eq_of_toNat_eq hpair.1
  obtain rfl : idx = idx' := BitVec.eq_of_toNat_eq hpair.2
  rfl

/-- Give some credentials an entry. -/
def openEntries (hashes : List Hash32) (m : FinMap Hash32 Nat) : FinMap Hash32 Nat :=
  hashes.foldl (fun m hash => if (m.lookup hash).isSome then m else m.insert hash 0) m

/-- `rebuild_stake_distribution`: scan the set, and give every credential that delegates an
entry. -/
def rebuildStakeDistribution (utxoSet : UtxoSet) (delegations : FinMap Hash32 Hash28) : StakeMaps :=
  let scanned := ({} : StakeMaps).addAll excludePtrs
    (entries rank rank_injective utxoSet)
  let delegating := listed BitVec.toNat Hash32.eq_of_toNat delegations.keys
  { scanned with stakeMap := openEntries delegating scanned.stakeMap }

/-! ## One output -/

/-- What an output counts for a key. -/
def stakeWeight (key : StakeKey) (output : TransactionOutput) : Nat :=
  if stakeRouting output.address excludePtrs = some key then output.value.coin else 0

namespace StakeMaps

variable {excludePtrs : Bool}
  {m m' : StakeMaps} {created : List (TransactionInput × TransactionOutput)}
  {output : TransactionOutput} (spent : List (TransactionInput × TransactionOutput))

/-- Write the stake of a key. -/
def set (m : StakeMaps) (stake : Nat) : StakeKey → StakeMaps
  | .credential hash => { m with stakeMap := m.stakeMap.insert hash stake }
  | .pointer ptr => { m with ptrStake := m.ptrStake.insert ptr stake }

theorem lookup_set (stake : Nat) (target key : StakeKey) :
    (m.set stake target).lookup key = if target = key then some stake else m.lookup key := by
  cases target <;> cases key <;>
    simp [set, lookup, FinMap.lookup_insert_ite, eq_comm]

/-- Counting an output that fits. -/
theorem lookup_add
    (hfits : ∀ key, m.stakeAt key + stakeWeight excludePtrs key output ≤ u64Max) (key : StakeKey) :
    (m.add excludePtrs output).lookup key =
      if stakeRouting output.address excludePtrs = some key then
        some (m.stakeAt key + output.value.coin) else m.lookup key := by
  cases hroute : stakeRouting output.address excludePtrs with
  | none => simp [add, hroute]
  | some target =>
  have hfit := hfits target
  rw [stakeWeight, if_pos hroute] at hfit
  have hadd : m.add excludePtrs output = m.set (m.stakeAt target + output.value.coin) target := by
    unfold add
    rw [hroute]
    cases target with
    | credential hash =>
      rw [← satAdd_of_le hfit]
      rfl
    | pointer ptr =>
      rw [← wrapAdd_of_le hfit]
      rfl
  simp only [hadd, lookup_set, Option.some.injEq]
  split
  · next heq => rw [heq]
  · rfl

theorem lookup_sub (m : StakeMaps) (output : TransactionOutput) (key : StakeKey) :
    (m.sub excludePtrs output).lookup key =
      (m.lookup key).map (· - stakeWeight excludePtrs key output) := by
  unfold stakeWeight
  cases hroute : stakeRouting output.address excludePtrs with
  | none => simp [sub, hroute]
  | some target =>
  have hsub : m.sub excludePtrs output =
      (m.lookup target).elim m fun stake => m.set (stake - output.value.coin) target := by
    unfold sub
    rw [hroute]
    cases target with
    | credential hash => cases h : m.stakeMap.lookup hash <;> simp [lookup, h, set, satSub]
    | pointer ptr => cases h : m.ptrStake.lookup ptr <;> simp [lookup, h, set, satSub]
  rw [hsub]
  by_cases heq : target = key
  · subst heq
    cases h : m.lookup target <;> simp [h, lookup_set]
  · cases m.lookup target <;> simp [lookup_set, heq]

theorem stakeAt_add
    (hfits : ∀ key, m.stakeAt key + stakeWeight excludePtrs key output ≤ u64Max) (key : StakeKey) :
    (m.add excludePtrs output).stakeAt key =
      m.stakeAt key + stakeWeight excludePtrs key output := by
  rw [stakeAt, lookup_add hfits, stakeWeight]
  split <;> rfl

theorem stakeAt_sub (m : StakeMaps) (output : TransactionOutput) (key : StakeKey) :
    (m.sub excludePtrs output).stakeAt key =
      m.stakeAt key - stakeWeight excludePtrs key output := by
  rw [stakeAt, lookup_sub, stakeAt]
  cases m.lookup key <;> simp

/-- Two maps with the same entries are the same. -/
theorem ext_lookup (h : ∀ key, m.lookup key = m'.lookup key) : m = m' := by
  obtain ⟨stakeMap, ptrStake⟩ := m
  obtain ⟨stakeMap', ptrStake'⟩ := m'
  have hstake : stakeMap = stakeMap' := Finmap.ext_lookup fun hash => h (.credential hash)
  have hptr : ptrStake = ptrStake' := Finmap.ext_lookup fun ptr => h (.pointer ptr)
  rw [hstake, hptr]

/-! ## Several outputs -/

/-- Outputs that fit one after the other. -/
theorem fits_cons {e : TransactionInput × TransactionOutput}
    (hfits : ∀ key, m.stakeAt key + weightIn (stakeWeight excludePtrs key) (e :: created) ≤
      u64Max) :
    (∀ key, m.stakeAt key + stakeWeight excludePtrs key e.2 ≤ u64Max) ∧
      ∀ key, (m.add excludePtrs e.2).stakeAt key + weightIn (stakeWeight excludePtrs key) created ≤
        u64Max := by
  have hcons : ∀ key, m.stakeAt key + (stakeWeight excludePtrs key e.2 +
      weightIn (stakeWeight excludePtrs key) created) ≤ u64Max := hfits
  have hhead : ∀ key, m.stakeAt key + stakeWeight excludePtrs key e.2 ≤ u64Max := by
    intro key
    have hkey := hcons key
    omega
  refine ⟨hhead, fun key => ?_⟩
  have hkey := hcons key
  rw [stakeAt_add hhead]
  omega

theorem stakeAt_addAll
    (hfits : ∀ key, m.stakeAt key + weightIn (stakeWeight excludePtrs key) created ≤ u64Max)
    (key : StakeKey) : (m.addAll excludePtrs created).stakeAt key =
      m.stakeAt key + weightIn (stakeWeight excludePtrs key) created := by
  induction created generalizing m with
  | nil => rfl
  | cons e created ih =>
    obtain ⟨hhead, hrest⟩ := fits_cons hfits
    have hstake := ih hrest
    rw [stakeAt_add hhead, Nat.add_assoc] at hstake
    exact hstake

theorem stakeAt_subAll (m : StakeMaps) (key : StakeKey) : (m.subAll excludePtrs spent).stakeAt key =
      m.stakeAt key - weightIn (stakeWeight excludePtrs key) spent := by
  induction spent generalizing m with
  | nil => rfl
  | cons e spent ih =>
    have hrest : ((m.sub excludePtrs e.2).subAll excludePtrs spent).stakeAt key = _ := ih _
    rw [stakeAt_sub, Nat.sub_sub] at hrest
    exact hrest

/-- Outputs that are all counted can be taken off. -/
theorem clipsAlong_eq_false {spent : List (TransactionInput × TransactionOutput)}
    (h : ∀ key, weightIn (stakeWeight excludePtrs key) spent ≤ m.stakeAt key) :
    clipsAlong excludePtrs m spent = false := by
  induction spent generalizing m with
  | nil => rfl
  | cons e spent ih =>
    have hcons : ∀ key, stakeWeight excludePtrs key e.2 +
        weightIn (stakeWeight excludePtrs key) spent ≤ m.stakeAt key := h
    rw [clipsAlong, Bool.or_eq_false_iff]
    constructor
    · rw [clips, Option.any_eq_false]
      intro key hroute
      have hkey := hcons key
      rw [stakeWeight, if_pos hroute] at hkey
      exact decide_eq_false (by omega)
    · refine ih fun key => ?_
      have hkey := hcons key
      rw [stakeAt_sub]
      omega

/-- The keys that some outputs count for get an entry. -/
theorem isSome_addAll
    (hfits : ∀ key, m.stakeAt key + weightIn (stakeWeight excludePtrs key) created ≤ u64Max)
    (key : StakeKey) : ((m.addAll excludePtrs created).lookup key).isSome =
      ((m.lookup key).isSome ||
        created.any fun e => stakeRouting e.2.address excludePtrs = some key) := by
  induction created generalizing m with
  | nil => simp [addAll]
  | cons e created ih =>
    obtain ⟨hhead, hrest⟩ := fits_cons hfits
    have hsome := ih hrest
    have hadd : ((m.add excludePtrs e.2).lookup key).isSome =
        ((m.lookup key).isSome || decide (stakeRouting e.2.address excludePtrs = some key)) := by
      rw [lookup_add hhead]
      by_cases hroute : stakeRouting e.2.address excludePtrs = some key <;> simp [hroute]
    rw [hadd, Bool.or_assoc] at hsome
    exact hsome

theorem isSome_subAll (m : StakeMaps) (key : StakeKey) :
    ((m.subAll excludePtrs spent).lookup key).isSome = (m.lookup key).isSome := by
  induction spent generalizing m with
  | nil => rfl
  | cons e spent ih =>
    have hrest : (((m.sub excludePtrs e.2).subAll excludePtrs spent).lookup key).isSome = _ := ih _
    rw [lookup_sub, Option.isSome_map] at hrest
    exact hrest

theorem lookup_eq_of_stakeAt {key : StakeKey}
    (hsome : (m.lookup key).isSome = (m'.lookup key).isSome)
    (hstake : m.stakeAt key = m'.stakeAt key) : m.lookup key = m'.lookup key := by
  unfold stakeAt at hstake
  cases h : m.lookup key <;> cases h' : m'.lookup key <;> simp_all

end StakeMaps

/-! ## The diff of a block -/

theorem foldl_snd {α β γ : Type} (f : α → γ → α) (g : β → γ → β) (l : List γ) (acc : α × β) :
    (l.foldl (fun acc e => (f acc.1 e, g acc.2 e)) acc).2 = l.foldl g acc.2 :=
  (List.foldl_hom Prod.snd fun _ _ => rfl).symm

variable (excludePtrs : Bool) (inputs : List TransactionInput) {tx : Transaction} {s : StakedUtxo}

theorem applyUtxoDiff_maps (d : UtxoDiff) (copy : UtxoSet × StakeMaps) :
    (applyUtxoDiff excludePtrs d copy).2 =
      (copy.2.addAll excludePtrs d.inserts).subAll excludePtrs d.deletes := by
  refine (foldl_snd (fun (u : UtxoSet) (e : TransactionInput × TransactionOutput) => u.erase e.1)
    (fun (m : StakeMaps) e => m.sub excludePtrs e.2) d.deletes _).trans ?_
  refine congrArg (StakeMaps.subAll excludePtrs d.deletes) ?_
  exact foldl_snd (fun u e =>
    u.insert e.1 e.2) (fun m e => m.add excludePtrs e.2) d.inserts copy

/-! ## One transaction -/

/-- The outputs that a step creates. -/
def TxStep.created : TxStep → List (TransactionInput × TransactionOutput)
  | valid tx => keyedOutputs tx.hash tx.body.outputs
  | failed tx => collateralReturnOutput tx

theorem accounts_removeInputs (u : UtxoSet) :
    Accounts u ⟨[], spentOutputs inputs u⟩ (removeInputs inputs u) := by
  intro f
  have hdups : inputs.eraseDups.toFinset = inputs.toFinset := by
    ext k
    simp
  have hspent : weightIn f (spentOutputs inputs u) = ∑ k ∈ inputs.toFinset, u.weightAt f k := by
    rw [← hdups, sum_toFinset _ (nodup_eraseDups inputs), ← FinMap.sum_filterMap_lookup]
    simp [spentOutputs, weightIn, map_filterMap, Function.comp_def]
  rw [hspent]
  exact total_removeInputs f inputs u

theorem weightIn_spentOutputs_le (u : UtxoSet)
    (f : TransactionOutput → Nat) : weightIn f (spentOutputs inputs u) ≤ u.total f := by
  have hspent : (removeInputs inputs u).total f + weightIn f (spentOutputs inputs u) =
      u.total f + 0 := accounts_removeInputs inputs u f
  omega

/-- The loop over the collateral spends on the set, in the diff and on the maps the same outputs. -/
theorem consume_eq {inputs : List TransactionInput} (hnodup : inputs.Nodup)
    (u : UtxoSet) (d : UtxoDiff) (m : StakeMaps) :
    consumeInputs inputs (u, d) = (eraseAll inputs u,
        ⟨d.inserts, d.deletes ++ inputs.filterMap fun k => (u.lookup k).map (k, ·)⟩) ∧
      consumeStaked excludePtrs inputs (u, m) = (eraseAll inputs u,
        m.subAll excludePtrs (inputs.filterMap fun k => (u.lookup k).map (k, ·))) := by
  induction inputs generalizing u d m with
  | nil => simp [consumeInputs, consumeStaked, eraseAll, StakeMaps.subAll]
  | cons input inputs ih =>
    rw [nodup_cons] at hnodup
    have hlater : inputs.filterMap (fun k => ((u.erase input).lookup k).map (k, ·)) =
        inputs.filterMap fun k => (u.lookup k).map (k, ·) := by
      refine filterMap_congr fun k hk => ?_
      rw [FinMap.lookup_erase_ite, if_neg]
      rintro rfl
      exact hnodup.1 hk
    rw [consumeInputs, consumeStaked, foldl_cons, foldl_cons]
    cases hlook : u.lookup input with
    | none =>
      obtain ⟨hdiff, hmaps⟩ := ih hnodup.2 (u.erase input) d m
      rw [hlater] at hdiff hmaps
      simp only [hlook, filterMap_cons, Option.map_none]
      exact ⟨hdiff, hmaps⟩
    | some spent =>
    obtain ⟨hdiff, hmaps⟩ := ih hnodup.2 (u.erase input) (d.recordDelete input spent)
      (m.sub excludePtrs spent)
    rw [hlater] at hdiff hmaps
    simp only [hlook, filterMap_cons, Option.map_some]
    refine ⟨hdiff.trans ?_, hmaps⟩
    simp [recordDelete, eraseAll]

/-- What a step does: it takes the outputs it spends off the maps and adds those it creates, and the
diff accounts for the change of the set. -/
structure StepSpec (excludePtrs : Bool) (s : StakedUtxo) (step : TxStep) : Prop where
  inserts : (step.apply excludePtrs s).2.inserts = step.created
  deletes : (step.apply excludePtrs s).2.deletes = step.spent s
  maps : (step.apply excludePtrs s).1.maps =
    (s.maps.subAll excludePtrs (step.spent s)).addAll excludePtrs step.created
  accounts : Accounts s.utxo.utxoSet (step.apply excludePtrs s).2
    (step.apply excludePtrs s).1.utxo.utxoSet
  effect : Effect [step.tx.hash] s.utxo.utxoSet (step.apply excludePtrs s).2
    (step.apply excludePtrs s).1.utxo.utxoSet
  spent_le : ∀ f, weightIn f (step.spent s) ≤ s.utxo.utxoSet.total f

theorem nodup_keyedOutputs (txId : Hash32) {outputs : List TransactionOutput}
    (hcount : outputs.length ≤ 2 ^ 32) : ((keyedOutputs txId outputs).map (·.1)).Nodup := by
  have hkeys : (keyedOutputs txId outputs).map (·.1) =
      (List.range' 0 outputs.length).map (outputKey txId) := by
    rw [← zipIdx_map_snd, keyedOutputs, map_map, map_map]
    rfl
  rw [hkeys]
  refine List.Nodup.map_on ?_ nodup_range'
  intro i hi j hj heq
  rw [mem_range'_1] at hi hj
  have hindex : (BitVec.ofNat 32 i).toNat = (BitVec.ofNat 32 j).toNat :=
    congrArg (fun key : TransactionInput => key.index.toNat) heq
  rw [BitVec.toNat_ofNat, BitVec.toNat_ofNat, Nat.mod_eq_of_lt (by omega),
    Nat.mod_eq_of_lt (by omega)] at hindex
  exact hindex

theorem addAll_eq (created : List (TransactionInput × TransactionOutput))
    (m : StakeMaps) : m.addAll excludePtrs created =
      (created.map (·.2)).foldl (fun m output => m.add excludePtrs output) m := by
  rw [StakeMaps.addAll, foldl_map]

theorem stepSpec_valid
    (hfresh : Fresh [tx.hash] s.utxo.utxoSet) (hcount : tx.body.outputs.length ≤ 2 ^ 32) :
    StepSpec excludePtrs s (.valid tx) where
  inserts := by
    simp [TxStep.apply, StakedUtxo.applyUtxoChanges, applyUtxoChanges, createOutputs_eq,
      foldl_recordDelete, TxStep.created]
  deletes := by
    simp [TxStep.apply, StakedUtxo.applyUtxoChanges, applyUtxoChanges, createOutputs_eq,
      foldl_recordDelete, TxStep.spent]
  maps := by
    rw [TxStep.created, addAll_eq, outputs_keyedOutputs]
    rfl
  accounts := by
    have hspent := accounts_removeInputs tx.body.inputs s.utxo.utxoSet
    have hcreated := hspent.insertAll (nodup_keyedOutputs tx.hash hcount) fun e he => by
      rw [lookup_removeInputs, hfresh e.1
        (mem_singleton.2 (transactionId_of_mem_keyedOutputs he)), ite_self]
    simpa [TxStep.apply, StakedUtxo.applyUtxoChanges, applyUtxoChanges, createOutputs_eq,
      foldl_recordDelete] using hcreated
  effect := applyUtxoChanges_effect tx s.utxo hfresh
  spent_le := weightIn_spentOutputs_le tx.body.inputs s.utxo.utxoSet

theorem stepSpec_failed
    (hfresh : Fresh [tx.hash] s.utxo.utxoSet) : StepSpec excludePtrs s (.failed tx) := by
  obtain ⟨hdiff, hmaps⟩ := consume_eq excludePtrs (nodup_eraseDups tx.body.collateral)
    s.utxo.utxoSet {} s.maps
  have hset : eraseAll tx.body.collateral.eraseDups s.utxo.utxoSet =
      removeInputs tx.body.collateral s.utxo.utxoSet := by
    refine Finmap.ext_lookup fun k => ?_
    rw [lookup_eraseAll, lookup_removeInputs]
    simp only [mem_eraseDups]
  rw [hset, nil_append] at hdiff
  have hutxo : (applyCollateralConsumption tx s.utxo).1.utxoSet =
      (removeInputs tx.body.collateral s.utxo.utxoSet).insertAll (collateralReturnOutput tx) := by
    unfold applyCollateralConsumption
    simp only [hdiff, createOutputs_eq]
  have hjournal : (applyCollateralConsumption tx s.utxo).2 =
      ⟨collateralReturnOutput tx, spentOutputs tx.body.collateral s.utxo.utxoSet⟩ := by
    unfold applyCollateralConsumption
    simp only [hdiff, createOutputs_eq]
    rfl
  have hsingle : ((collateralReturnOutput tx).map (·.1)).Nodup := by
    unfold collateralReturnOutput
    cases tx.body.collateralReturn <;> simp
  have hfree : ∀ e ∈ collateralReturnOutput tx,
      (removeInputs tx.body.collateral s.utxo.utxoSet).lookup e.1 = none := by
    intro e he
    have hid : e.1.transactionId ∈ [tx.hash] := by
      unfold collateralReturnOutput at he
      cases hret : tx.body.collateralReturn <;> simp_all [outputKey]
    rw [lookup_removeInputs, hfresh e.1 hid, ite_self]
  refine ⟨?_, ?_, ?_, ?_, applyCollateralConsumption_effect tx s.utxo hfresh,
    weightIn_spentOutputs_le tx.body.collateral s.utxo.utxoSet⟩
  · exact congrArg Journal.inserts hjournal
  · exact congrArg Journal.deletes hjournal
  · rw [TxStep.created, addAll_eq]
    have hconsumed : (consumeStaked excludePtrs tx.body.collateral.eraseDups
        (s.utxo.utxoSet, s.maps)).2 = s.maps.subAll excludePtrs (TxStep.spent s (.failed tx)) :=
      congrArg Prod.snd hmaps
    rw [← hconsumed]
    unfold collateralReturnOutput
    cases hret : tx.body.collateralReturn <;>
      simp [TxStep.apply, StakedUtxo.applyCollateralConsumption, hret]
  · have haccounts := (accounts_removeInputs tx.body.collateral s.utxo.utxoSet).insertAll hsingle
      hfree
    rw [nil_append, ← hutxo, ← hjournal] at haccounts
    exact haccounts

end Dugite
