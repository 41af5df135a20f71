import Dugite.Validation.NativeScripts

/-!
# The witness rules of phase 1

Rule 9b asks for a key witness or an available script for inputs, collateral, withdrawals,
certificates and voters; rule 10 for the required signers; rule 13 evaluates the native scripts of
the witness set that are needed; rule 14 verifies the signatures. Each rule is the list of the errors
it pushes.
-/

namespace Dugite

/-! ## Credentials behind the items of a body -/

/-- A reward account has 29 bytes or more, and the type nibble of a reward address. -/
def extractRewardCredential (rewardAccount : Bytes) : Option Credential :=
  match rewardAccount with
  | [] => none
  | header :: body =>
    if rewardAccount.length < 29 then none
    else if addressType header = 0b1110 then
      some (.verificationKey (Hash28.ofBytes (body.take 28)))
    else if addressType header = 0b1111 then some (.script (Hash28.ofBytes (body.take 28)))
    else none

/-- The keys that must sign for a certificate. -/
def certRequiredWitnesses : Certificate → List Hash28
  | .poolRegistration params => params.poolOwners
  | .poolRetirement poolHash _ => [poolHash]
  | .regDRep c _ _ => c.keyHash.toList
  | .unregDRep c _ => c.keyHash.toList
  | .updateDRep c _ => c.keyHash.toList
  | .committeeHotAuth c _ => c.keyHash.toList
  | .committeeColdResign c _ => c.keyHash.toList
  | .stakeDelegation c _ => c.keyHash.toList
  | .voteDelegation c _ => c.keyHash.toList
  | .stakeVoteDelegation c _ _ => c.keyHash.toList
  | .regStakeDeleg c _ _ => c.keyHash.toList
  | .regStakeVoteDeleg c _ _ _ => c.keyHash.toList
  | .voteRegDeleg c _ _ => c.keyHash.toList
  | .stakeDeregistration c => c.keyHash.toList
  | .conwayStakeRegistration c _ => c.keyHash.toList
  | .conwayStakeDeregistration c _ => c.keyHash.toList
  | .stakeRegistration _ => []
  | .genesisKeyDelegation genesisHash _ _ => [genesisHash.toHash28]
  | .moveInstantaneousRewards _ _ => []

/-- The script that must witness a certificate. -/
def certRequiredScriptWitness : Certificate → Option Hash28
  | .stakeRegistration _ => none
  | .conwayStakeRegistration c _ => c.scriptHash
  | .stakeDeregistration c => c.scriptHash
  | .conwayStakeDeregistration c _ => c.scriptHash
  | .stakeDelegation c _ => c.scriptHash
  | .voteDelegation c _ => c.scriptHash
  | .stakeVoteDelegation c _ _ => c.scriptHash
  | .regStakeDeleg c _ _ => c.scriptHash
  | .regStakeVoteDeleg c _ _ _ => c.scriptHash
  | .voteRegDeleg c _ _ => c.scriptHash
  | .committeeHotAuth c _ => c.scriptHash
  | .committeeColdResign c _ => c.scriptHash
  | .regDRep c _ _ => c.scriptHash
  | .unregDRep c _ => c.scriptHash
  | .updateDRep c _ => c.scriptHash
  | .poolRegistration _ => none
  | .poolRetirement _ _ => none
  | .genesisKeyDelegation _ _ _ => none
  | .moveInstantaneousRewards _ _ => none

/-- The key that must sign for a voter; a script voter needs none. -/
def voterRequiredKey : Voter → Option Hash28
  | .constitutionalCommittee c => c.keyHash
  | .drep c => c.keyHash
  | .stakePool poolHash => some poolHash.toHash28

/-- The credential of a certificate in rule 13. -/
def certificateCredential : Certificate → Option Credential
  | .stakeDeregistration c => some c
  | .stakeDelegation c _ => some c
  | .conwayStakeRegistration c _ => some c
  | .conwayStakeDeregistration c _ => some c
  | .voteDelegation c _ => some c
  | .stakeVoteDelegation c _ _ => some c
  | .regStakeDeleg c _ _ => some c
  | .regStakeVoteDeleg c _ _ _ => some c
  | .voteRegDeleg c _ _ => some c
  | .committeeHotAuth c _ => some c
  | .committeeColdResign c _ => some c
  | .regDRep c _ _ => some c
  | .unregDRep c _ => some c
  | .updateDRep c _ => some c
  | _ => none

/-- Bytes as the debug output of the source prints them. -/
def Bytes.debug (bytes : Bytes) : String := "[" ++ ", ".intercalate (bytes.map toString) ++ "]"

/-! ## The rules -/

section Rules
variable (crypto : Crypto) (T : PlutusTranslation) (tx : Transaction) (utxo : UtxoLookup)

/-- Only keys of 32 bytes count. -/
def vkeyWitnessHashes : List Hash28 :=
  (tx.witnessSet.vkeyWitnesses.filter fun w => w.vkey.length = 32).map fun w =>
    crypto.blake2b224 w.vkey

/-- A key hash without a witness. -/
def requireKey (error : String → ValidationError) (keyHash : Hash28) : List ValidationError :=
  if keyHash ∈ vkeyWitnessHashes crypto tx then [] else [error keyHash.toHex]

/-- A script hash without a script. -/
def requireScript (error : String → ValidationError) (scriptHash : Hash28) : List ValidationError :=
  if scriptHash ∈ collectAvailableScriptHashes crypto T tx utxo then [] else [error scriptHash.toHex]

/-- A credential without its witness. -/
def requireCredential (keyError scriptError : String → ValidationError) :
    Credential → List ValidationError
  | .verificationKey keyHash => requireKey crypto tx keyError keyHash
  | .script scriptHash => requireScript crypto T tx utxo scriptError scriptHash

/-- The credential that locks an output. -/
def inputCredential (input : TransactionInput) : Option Credential :=
  (utxo input).bind (·.address.paymentCredential)

/-- Rule 9b. An input or collateral that is not in the set, and a Byron address, need no witness
here. -/
def witnessCompleteness : List ValidationError :=
  tx.body.inputs.flatMap (fun input => (inputCredential utxo input).toList.flatMap
    (requireCredential crypto T tx utxo .missingInputWitness .missingScriptWitness)) ++
  tx.body.collateral.flatMap (fun input =>
    ((inputCredential utxo input).bind (·.keyHash)).toList.flatMap
      (requireKey crypto tx .missingInputWitness)) ++
  tx.body.withdrawals.keys.flatMap (fun account => (extractRewardCredential account).toList.flatMap
    (requireCredential crypto T tx utxo .missingWithdrawalWitness .missingWithdrawalScriptWitness)) ++
  tx.body.certificates.flatMap (fun cert =>
    (certRequiredWitnesses cert).flatMap (requireKey crypto tx .missingCertificateWitness) ++
    (certRequiredScriptWitness cert).toList.flatMap
      (requireScript crypto T tx utxo .missingCertificateScriptWitness)) ++
  tx.body.votingProcedures.keys.flatMap fun voter =>
    (voterRequiredKey voter).toList.flatMap (requireKey crypto tx .missingCertificateWitness)

/-- Rule 10. The required signers are compared by their first 28 bytes. -/
def requiredSignerRule : List ValidationError :=
  tx.body.requiredSigners.filterMap fun signer =>
    if signer.toHash28 ∈ vkeyWitnessHashes crypto tx then none
    else some (.missingRequiredSigner signer.toHex)

/-- The scripts whose native evaluation rule 13 asks for: not those of voters. -/
def scriptsNeeded : List Hash28 :=
  tx.body.inputs.filterMap (inputScript utxo) ++ tx.body.mint.keys ++
    tx.body.withdrawals.keys.filterMap withdrawalScript ++
    tx.body.certificates.filterMap fun cert => (certificateCredential cert).bind (·.scriptHash)

/-- The signers as native scripts name them. -/
def nativeSigners (witnesses : List VKeyWitness) : List Hash32 :=
  witnesses.map fun w => (crypto.blake2b224 w.vkey).toHash32Padded

/-- A native script on the validity interval of the transaction. -/
def runNativeScript (signers : List Hash32) (script : NativeScript) : Bool :=
  evaluateNativeScript signers tx.body.validityIntervalStart tx.body.ttl script

/-- Rule 13. Only the native scripts of the witness set are evaluated, and the first failure ends
the loop. -/
def nativeScriptRule : List ValidationError :=
  if (witnessNativeScripts crypto T tx).all fun e =>
      !decide (e.1 ∈ scriptsNeeded tx utxo) ||
        runNativeScript tx (nativeSigners crypto tx.witnessSet.vkeyWitnesses) e.2
  then [] else [.nativeScriptFailed]

/-- The verification of one key witness. -/
def verifySingleWitness (w : VKeyWitness) : Option ValidationError :=
  if w.vkey.length ≠ 32 then some (.invalidWitnessSignature
    ("malformed vkey: expected 32 bytes, got " ++ toString w.vkey.length))
  else if w.signature.length ≠ 64 then some (.invalidWitnessSignature
    ("malformed signature: expected 64 bytes, got " ++ toString w.signature.length))
  else if crypto.ed25519Verify w.vkey tx.hash.toBytes w.signature then none
  else some (.invalidWitnessSignature (Bytes.debug (w.vkey.take 8)))

/-- Rule 14, for the key witnesses. -/
def verifyWitnessSignatures : List ValidationError :=
  tx.witnessSet.vkeyWitnesses.filterMap (verifySingleWitness crypto tx)

end Rules

/-! ## What passing the rules means -/

section Passing
variable {crypto : Crypto} {T : PlutusTranslation} {tx : Transaction} {utxo : UtxoLookup}
  {error : String → ValidationError} {c : Credential}

@[simp] theorem requireKey_eq_nil {keyHash : Hash28} :
    requireKey crypto tx error keyHash = [] ↔ keyHash ∈ vkeyWitnessHashes crypto tx := by
  unfold requireKey
  split <;> simp_all

@[simp] theorem requireScript_eq_nil {scriptHash : Hash28} :
    requireScript crypto T tx utxo error scriptHash = [] ↔
      scriptHash ∈ collectAvailableScriptHashes crypto T tx utxo := by
  unfold requireScript
  split <;> simp_all

/-- A credential has a key witness, or its script is available. -/
def Witnessed (crypto : Crypto) (T : PlutusTranslation) (tx : Transaction) (utxo : UtxoLookup) :
    Credential → Prop
  | .verificationKey keyHash => keyHash ∈ vkeyWitnessHashes crypto tx
  | .script scriptHash => scriptHash ∈ collectAvailableScriptHashes crypto T tx utxo

@[simp] theorem requireCredential_eq_nil {keyError scriptError : String → ValidationError} :
    requireCredential crypto T tx utxo keyError scriptError c = [] ↔
      Witnessed crypto T tx utxo c := by
  cases c with
  | verificationKey keyHash => exact requireKey_eq_nil
  | script scriptHash => exact requireScript_eq_nil

/-- Rule 9b passes. -/
structure WitnessesComplete (crypto : Crypto) (T : PlutusTranslation) (tx : Transaction)
    (utxo : UtxoLookup) : Prop where
  inputs : ∀ input ∈ tx.body.inputs, ∀ c, inputCredential utxo input = some c →
    Witnessed crypto T tx utxo c
  collateral : ∀ input ∈ tx.body.collateral, ∀ keyHash,
    inputCredential utxo input = some (.verificationKey keyHash) →
      keyHash ∈ vkeyWitnessHashes crypto tx
  withdrawals : ∀ account ∈ tx.body.withdrawals.keys, ∀ c,
    extractRewardCredential account = some c → Witnessed crypto T tx utxo c
  certificateKeys : ∀ cert ∈ tx.body.certificates, ∀ keyHash ∈ certRequiredWitnesses cert,
    keyHash ∈ vkeyWitnessHashes crypto tx
  certificateScripts : ∀ cert ∈ tx.body.certificates, ∀ h,
    certRequiredScriptWitness cert = some h → h ∈ collectAvailableScriptHashes crypto T tx utxo
  voters : ∀ voter ∈ tx.body.votingProcedures.keys, ∀ keyHash,
    voterRequiredKey voter = some keyHash → keyHash ∈ vkeyWitnessHashes crypto tx

theorem witnessCompleteness_eq_nil (h : witnessCompleteness crypto T tx utxo = []) :
    WitnessesComplete crypto T tx utxo := by
  simp only [witnessCompleteness, List.append_eq_nil_iff, List.flatMap_eq_nil_iff,
    Option.mem_toList, requireCredential_eq_nil, requireKey_eq_nil, requireScript_eq_nil] at h
  obtain ⟨⟨⟨⟨hinputs, hcollateral⟩, hwithdrawals⟩, hcerts⟩, hvoters⟩ := h
  refine ⟨hinputs, ?_, hwithdrawals, fun cert hcert => (hcerts cert hcert).1,
    fun cert hcert => (hcerts cert hcert).2, hvoters⟩
  intro input hinput keyHash hkey
  exact hcollateral input hinput keyHash (by rw [hkey]; rfl)

/-- Rule 14 passes: every key witness verifies. -/
theorem verifyWitnessSignatures_eq_nil :
    verifyWitnessSignatures crypto tx = [] ↔ ∀ w ∈ tx.witnessSet.vkeyWitnesses,
      crypto.ed25519Verify w.vkey tx.hash.toBytes w.signature = true := by
  rw [verifyWitnessSignatures, List.filterMap_eq_nil_iff]
  refine forall₂_congr fun w _ => ?_
  unfold verifySingleWitness
  constructor
  · intro h
    split at h
    · cases h
    split at h
    · cases h
    split at h
    · next hverify => exact hverify
    · cases h
  · intro hverify
    have hlengths := hverify
    simp only [Crypto.ed25519Verify, Bool.and_eq_true, decide_eq_true_eq] at hlengths
    rw [if_neg (not_not.2 hlengths.1.1), if_neg (not_not.2 hlengths.1.2), if_pos hverify]

/-! ## Two views of one credential -/

/-- A withdrawal key that passes for a reward account is long enough, and bit 4 of its header tells
the kind of its credential. -/
theorem extractRewardCredential_eq_some {account : Bytes}
    (h : extractRewardCredential account = some c) :
    ∃ header body, account = header :: body ∧ ¬account.length < 29 ∧
      c = rewardCredential header (Hash28.ofBytes (body.take 28)) := by
  unfold extractRewardCredential at h
  cases account with
  | nil => cases h
  | cons header body =>
  have hbit := addressType_lowBit header
  dsimp only at h
  split at h
  · cases h
  next hlen =>
  refine ⟨header, body, rfl, hlen, ?_⟩
  unfold rewardCredential
  split at h
  · next htype =>
    cases h
    rw [htype] at hbit
    split at hbit
    · next hzero => rw [if_pos hzero]
    · exact absurd hbit (by decide)
  · split at h
    · next htype =>
      cases h
      rw [htype] at hbit
      split at hbit
      · exact absurd hbit (by decide)
      · next hone => rw [if_neg hone]
    · cases h

end Passing

end Dugite
