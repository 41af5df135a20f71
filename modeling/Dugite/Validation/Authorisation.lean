import Dugite.Validation.Validate

/-!
# Who authorised what

A key authorises with a verified signature on the transaction (`Signed`), a script by running to
success: a native script that the transaction supplies evaluates to true (`NativeRan`), a Plutus
script is run by a redeemer for the item (`PlutusRan`). What validation looks at is less: whether a
key witness is there, and for a script whether it is `Covered`. This module relates the two on an
accepted transaction. The Plutus part rests on positions: a redeemer that phase 1 asked for is run by
phase 2, and for inputs and withdrawals on the script that phase 1 had in mind.
-/

namespace Dugite

open Checks Positions List

section Specification
variable (v : Validator) (tx : Transaction) (utxo : UtxoLookup)

/-- The key witnesses whose signature on the transaction verifies. -/
def verifiedWitnesses : List VKeyWitness :=
  tx.witnessSet.vkeyWitnesses.filter fun w =>
    v.crypto.ed25519Verify w.vkey tx.hash.toBytes w.signature

/-- A key with this hash signed the transaction. -/
def Signed (keyHash : Hash28) : Prop :=
  ∃ w ∈ verifiedWitnesses v tx, v.crypto.blake2b224 w.vkey = keyHash

/-- A native script with this hash is supplied, by the witness set or by reference, and evaluates to
true on the signers and the validity interval of the transaction. -/
def NativeRan (h : Hash28) : Prop :=
  ∃ ns, (h, ns) ∈ suppliedNativeScripts v.crypto v.T tx utxo ∧
    runNativeScript tx (nativeSigners v.crypto (verifiedWitnesses v tx)) ns = true

/-- A redeemer for this position ran a Plutus script with this hash to success. -/
def PlutusRan (tag : RedeemerTag) (i : Nat) (h : Hash28) : Prop :=
  ∃ slotConfig, v.slotConfig = some slotConfig ∧
    ∃ r ∈ tx.witnessSet.redeemers, r.tag = tag ∧ r.index.toNat = i ∧
      Ran v.crypto v.T (v.machine slotConfig) v.params.maxTxExUnits tx utxo r h

/-- A credential authorised an item: its key signed, or its script ran, natively or as a Plutus
script in the sense of `plutus`. -/
def Authorised (plutus : Hash28 → Prop) : Credential → Prop
  | .verificationKey keyHash => Signed v tx keyHash
  | .script h => NativeRan v tx utxo h ∨ plutus h

/-! ## What validation looks at -/

/-- A native script with this hash is supplied and evaluates to true on all key witnesses. -/
def NativePasses (h : Hash28) : Prop :=
  ∃ ns, (h, ns) ∈ suppliedNativeScripts v.crypto v.T tx utxo ∧
    runNativeScript tx (nativeSigners v.crypto tx.witnessSet.vkeyWitnesses) ns = true

/-- A script is a native script that passes, or a Plutus script in a transaction that has Plutus
scripts or redeemers in its witness set. -/
def ScriptCovered (h : Hash28) : Prop :=
  NativePasses v tx utxo h ∨ (providedPlutus v.crypto tx utxo h = true ∧ hasPlutusScripts tx = true)

/-- A key has a witness, a script is covered. -/
def Covered : Credential → Prop
  | .verificationKey keyHash => keyHash ∈ vkeyWitnessHashes v.crypto tx
  | .script h => ScriptCovered v tx utxo h

end Specification

/-! ## Keys and native scripts -/

section Accepted
variable {v : Validator} {ctx : ValidationContext} {tx : Transaction} {utxo : UtxoLookup}

theorem verifiedWitnesses_eq (hp : Passed v ctx tx utxo) :
    verifiedWitnesses v tx = tx.witnessSet.vkeyWitnesses :=
  filter_eq_self.2 (verifyWitnessSignatures_eq_nil.1 hp.signatures)

theorem signed_iff (hp : Passed v ctx tx utxo) {keyHash : Hash28} :
    Signed v tx keyHash ↔ keyHash ∈ vkeyWitnessHashes v.crypto tx := by
  rw [Signed, verifiedWitnesses_eq hp, vkeyWitnessHashes, mem_map]
  constructor
  · rintro ⟨w, hw, rfl⟩
    have hverify := verifyWitnessSignatures_eq_nil.1 hp.signatures w hw
    simp only [Crypto.ed25519Verify, Bool.and_eq_true, decide_eq_true_eq] at hverify
    exact ⟨w, mem_filter.2 ⟨hw, decide_eq_true hverify.1.1⟩, rfl⟩
  · rintro ⟨w, hw, rfl⟩
    exact ⟨w, (mem_filter.1 hw).1, rfl⟩

variable {h : Hash28} {tag : RedeemerTag} {i : Nat}

theorem nativeRan_iff (hp : Passed v ctx tx utxo) :
    NativeRan v tx utxo h ↔ NativePasses v tx utxo h := by
  rw [NativeRan, NativePasses, verifiedWitnesses_eq hp]

/-! ## Redeemers -/

/-- A script that ran stands at its position in phase 2. -/
theorem PlutusRan.resolved (hran : PlutusRan v tx utxo tag i h) :
    (phase2Scripts v.T tx utxo tag)[i]? = some (some h) ∧ HashedAsPlutus v.crypto v.T tx utxo h := by
  obtain ⟨slotConfig, -, r, -, rfl, rfl, res, consumed, hres, hhash, -⟩ := hran
  obtain ⟨hposition, script, hfind, -⟩ := resolvesTo_iff.1 ⟨res, hres, hhash⟩
  exact ⟨hposition, hashedAsPlutus_of_findScriptBytes hfind⟩

/-- A transaction that runs a redeemer takes the Plutus rules. -/
theorem PlutusRan.hasPlutusScripts
    (hran : PlutusRan v tx utxo tag i h) : hasPlutusScripts tx = true := by
  obtain ⟨-, -, r, hr, -⟩ := hran
  unfold Dugite.hasPlutusScripts
  cases hredeemers : tx.witnessSet.redeemers with
  | nil => rw [hredeemers] at hr; cases hr
  | cons => simp

variable (hp : Passed v ctx tx utxo) (hindexed : Indexed v.crypto tx utxo)
include hp hindexed

/-- A script that ran did so at a position that phase 1 asks about. -/
theorem PlutusRan.marked (hran : PlutusRan v tx utxo tag i h) :
    ∃ h', (plutusPositions v.crypto tx utxo tag)[i]? = some (some h') := by
  have hplutus := hp.plutus hran.hasPlutusScripts
  obtain ⟨slotConfig, -, r, hr, rfl, rfl, -⟩ := hran
  obtain ⟨j, h', hj, hindex⟩ := checkExtraRedeemers_eq_nil.1 hplutus.redeemers.2 r hr
  have hlt : j < 2 ^ 32 := Nat.lt_of_lt_of_le (List.getElem?_eq_some_iff.1 hj).1 (hindexed r.tag)
  refine ⟨h', ?_⟩
  rw [hindex, BitVec.toNat_ofNat, Nat.mod_eq_of_lt hlt]
  exact hj

variable (hvalid : tx.isValid = true) (hplutus : hasPlutusScripts tx = true) (hne : tag ≠ .guarding)
include hvalid hplutus hne

/-- At every position that phase 1 asks about a script runs, in a valid transaction that takes the
Plutus rules. -/
theorem plutusRan_of_marked (hmarked : (plutusPositions v.crypto tx utxo tag)[i]? = some (some h)) :
    ∃ h', PlutusRan v tx utxo tag i h' := by
  have hpassed := hp.plutus hplutus
  obtain ⟨r, hr, rfl, hindex⟩ :=
    checkScriptRedeemers_eq_nil.1 hpassed.redeemers.1 tag hne i h hmarked
  have hphase2 := hpassed.phase2 (ne_nil_of_mem hr)
  unfold phase2 at hphase2
  have hlt : i < 2 ^ 32 :=
    Nat.lt_of_lt_of_le (List.getElem?_eq_some_iff.1 hmarked).1 (hindexed r.tag)
  have hpos : r.index.toNat = i := by rw [hindex, BitVec.toNat_ofNat, Nat.mod_eq_of_lt hlt]
  cases hslot : v.slotConfig with
  | none =>
    rw [hslot] at hphase2
    cases hphase2
  | some slotConfig =>
  rw [hslot, hvalid] at hphase2
  have hok := phase2AdmissionError_valid (Option.toList_eq_nil_iff.1 hphase2)
  obtain ⟨h', hran⟩ := ran_of_evaluatePlutusScripts hok hr
  exact ⟨h', slotConfig, hslot, r, hr, rfl, hpos, hran⟩

/-- Where phase 2 has the script of phase 1, that script runs. -/
theorem plutusRan_of_same {h' : Hash28}
    (hmarked : (plutusPositions v.crypto tx utxo tag)[i]? = some (some h'))
    (hposition : (phase2Scripts v.T tx utxo tag)[i]? = some (some h)) :
    PlutusRan v tx utxo tag i h := by
  obtain ⟨h₂, hran⟩ := plutusRan_of_marked hp hindexed hvalid hplutus hne hmarked
  have heq := hran.resolved.1.symm.trans hposition
  rw [Option.some.inj (Option.some.inj heq)] at hran
  exact hran

end Accepted

/-! ## A validator to evaluate -/

/-- Plain hashes, no script that can run and none of the other rules. -/
def plainValidator : Validator where
  crypto := Crypto.plain
  T := emptyTranslation
  machine _ _ _ _ _ := .error (.panic "")
  other := .silent
  params :=
    { protocolVersionMajor := 10, protocolVersionMinor := 0, keyDeposit := 2, poolDeposit := 500,
      drepDeposit := 500, govActionDeposit := 1000, collateralPercentage := 150,
      maxTxExUnits := ⟨0, 0⟩ }
  slotConfig := none

/-- The full context of a test network without pools, accounts, DReps and proposals. -/
def emptyContext : ValidationContext where
  registeredPools := some ∅
  rewardAccounts := some ∅
  registeredDreps := some ∅
  drepDeposits := some ∅
  nodeNetwork := some .testnet
  stakeKeyDeposits := some ∅
  activeProposals := some ∅
  enactedGovRoots := some {}

/-- The hash of the native script that always passes. -/
def nativePass : Hash28 := Crypto.plain.blake2b224Tagged 0 []

/-- An output locked by that script. -/
def nativeOutput (coin : Nat) : TransactionOutput where
  address := .enterprise .testnet (.script nativePass)
  value := .lovelace coin

/-- One unspent output, of five coins, locked by that script. -/
def nativeUtxo : UtxoLookup := fun input =>
  if input = ⟨1, 0⟩ then some (nativeOutput 5) else none

end Dugite
