import Dugite.Validation.Authorisation

/-!
# Certificates and votes act only with a mandate

A certificate acts for credentials, a vote for its voter. `mandates_authorised_iff` says when the
credentials behind all certificates and votes of an accepted transaction have authorised them.
Validation never asks the operator of a registered pool to sign, looks for no script of a voter
except by the redeemers of the Plutus scripts that happen to be supplied, and evaluates a native
script only when it stands in the witness set and something else than a vote needs it.
-/

namespace Dugite

open Checks Positions List Voter Credential

/-! ## Who must agree -/

/-- The credentials that a certificate acts for. Anyone may register a stake credential without a
deposit; genesis keys and MIR act for no stake credential, DRep, committee member or pool. -/
def Certificate.actsFor : Certificate → List Credential
  | .stakeRegistration _ => []
  | .stakeDeregistration c => [c]
  | .conwayStakeRegistration c _ => [c]
  | .conwayStakeDeregistration c _ => [c]
  | .stakeDelegation c _ => [c]
  | .poolRegistration params => (params.operator :: params.poolOwners).map .verificationKey
  | .poolRetirement poolHash _ => [.verificationKey poolHash]
  | .regDRep c _ _ => [c]
  | .unregDRep c _ => [c]
  | .updateDRep c _ => [c]
  | .voteDelegation c _ => [c]
  | .stakeVoteDelegation c _ _ => [c]
  | .regStakeDeleg c _ _ => [c]
  | .committeeHotAuth cold _ => [cold]
  | .committeeColdResign cold _ => [cold]
  | .regStakeVoteDeleg c _ _ _ => [c]
  | .voteRegDeleg c _ _ => [c]
  | .genesisKeyDelegation _ _ _ => []
  | .moveInstantaneousRewards _ _ => []

/-- The credential that a voter votes with. -/
def Voter.actsFor : Voter → Credential
  | .constitutionalCommittee c => c
  | .drep c => c
  | .stakePool hash => .verificationKey hash.toHash28

section Specification
variable (v : Validator) (tx : Transaction) (utxo : UtxoLookup)

/-- A redeemer ran this script for a voter. -/
def VoteRan (voter : Voter) (h : Hash28) : Prop :=
  ∃ i : Nat, (ledgerOrderedVoters tx.body.votingProcedures)[i]? = some voter ∧
    PlutusRan v tx utxo .vote i h

/-- Every certificate and every vote of the transaction is authorised. -/
structure MandatesAuthorised : Prop where
  certificates : ∀ i cert, tx.body.certificates[i]? = some cert → ∀ c ∈ cert.actsFor,
    Authorised v tx utxo (PlutusRan v tx utxo .cert i) c
  votes : ∀ voter votes, (voter, votes) ∈ tx.body.votingProcedures.entries → votes.entries ≠ [] →
    Authorised v tx utxo (VoteRan v tx utxo voter) voter.actsFor

/-- A redeemer is asked for at the place of a voter. -/
def VoterAsked (voter : Voter) : Prop :=
  hasPlutusScripts tx = true ∧ ∃ (i : Nat) (h : Hash28),
    (ledgerOrderedVoters tx.body.votingProcedures)[i]? = some voter ∧
      (plutusPositions v.crypto tx utxo .vote)[i]? = some (some h)

/-- The condition on the transaction and the state. -/
structure MandatesCovered : Prop where
  /-- The operators of registered pools have a key witness. -/
  operators : ∀ params, .poolRegistration params ∈ tx.body.certificates →
    params.operator ∈ vkeyWitnessHashes v.crypto tx
  /-- The scripts of certificates are covered. -/
  certificates : ∀ cert ∈ tx.body.certificates, ∀ h, certificateScript cert = some h →
    ScriptCovered v tx utxo h
  /-- A voting script passes natively, or its voter is asked for a redeemer. -/
  votes : ∀ voter votes, (voter, votes) ∈ tx.body.votingProcedures.entries → votes.entries ≠ [] →
    ∀ h, voter.scriptHash = some h → NativePasses v tx utxo h ∨ VoterAsked v tx utxo voter

end Specification

/-! ## Certificates -/

variable {cert : Certificate} {keyHash : Hash28}

theorem script_mem_actsFor {h : Hash28} :
    .script h ∈ cert.actsFor ↔ certificateScript cert = some h := by
  cases cert <;> first
    | exact mem_singleton.trans (eq_comm.trans scriptHash_eq_some.symm)
    | simp [Certificate.actsFor, certificateScript]

/-- Rule 9b asks all keys that a certificate acts for to sign, except the operator of a pool that
is registered. -/
theorem key_mem_actsFor (h : .verificationKey keyHash ∈ cert.actsFor) :
    keyHash ∈ certRequiredWitnesses cert ∨
      ∃ params, cert = .poolRegistration params ∧ keyHash = params.operator := by
  cases cert with
  | poolRegistration params =>
    obtain ⟨key, hkey, heq⟩ := mem_map.1 h
    cases heq
    obtain hoperator | howner := mem_cons.1 hkey
    · exact .inr ⟨params, rfl, hoperator⟩
    · exact .inl howner
  | _ =>
    refine .inl ?_
    first
    | exact absurd h not_mem_nil
    | (cases mem_singleton.1 h; exact mem_singleton_self keyHash)

section Accepted
variable {v : Validator} {ctx : ValidationContext} {tx : Transaction} {utxo : UtxoLookup}
  {h : Hash28} {voter : Voter}

/-! ## Votes -/

theorem Voter.actsFor_eq_script : voter.actsFor = .script h ↔ voter.scriptHash = some h := by
  cases voter <;> simp [actsFor, scriptHash, scriptHash_eq_some]

theorem Voter.actsFor_eq_key
    (h : voter.actsFor = .verificationKey keyHash) : voterRequiredKey voter = some keyHash := by
  cases voter with
  | constitutionalCommittee c | drep c =>
    obtain rfl : c = .verificationKey keyHash := h
    rfl
  | stakePool hash => exact congrArg some (verificationKey.inj h)

variable (hp : Passed v ctx tx utxo) (hindexed : Indexed v.crypto tx utxo)
include hp hindexed

/-- At the place of a voter that is asked for a redeemer the script of the voter runs, whatever
script the redeemer was asked for. -/
theorem VoterAsked.ran (hvalid : tx.isValid = true) (hscript : voter.scriptHash = some h)
    (hasked : VoterAsked v tx utxo voter) : VoteRan v tx utxo voter h := by
  obtain ⟨hplutus, i, h', hi, hmarked⟩ := hasked
  exact ⟨i, hi, plutusRan_of_same hp hindexed hvalid hplutus (by decide) hmarked
    (getElem?_map_eq_some.2 ⟨voter, hi, hscript⟩)⟩

theorem VoteRan.asked (hran : VoteRan v tx utxo voter h) : VoterAsked v tx utxo voter := by
  obtain ⟨i, hi, hran⟩ := hran
  obtain ⟨h', hmarked⟩ := hran.marked hp hindexed
  exact ⟨hran.hasPlutusScripts, i, h', hi, hmarked⟩

/-! ## The whole -/

theorem mandates_covered_of_authorised (hmandates : MandatesAuthorised v tx utxo) :
    MandatesCovered v tx utxo where
  operators := by
    intro params hparams
    obtain ⟨i, hi⟩ := mem_iff_getElem?.1 hparams
    exact (signed_iff hp).1
      (hmandates.certificates i _ hi (.verificationKey params.operator) mem_cons_self)
  certificates := by
    intro cert hcert h hscript
    obtain ⟨i, hi⟩ := mem_iff_getElem?.1 hcert
    obtain hnative | hran :=
      hmandates.certificates i cert hi (.script h) (script_mem_actsFor.2 hscript)
    · exact .inl ((nativeRan_iff hp).1 hnative)
    · obtain ⟨h', hmarked⟩ := hran.marked hp hindexed
      obtain ⟨cert', hcert', hscript', hprovided⟩ := getElem?_onlyPlutus.1 hmarked
      obtain rfl := Option.some.inj (hi.symm.trans hcert')
      obtain rfl := Option.some.inj (hscript.symm.trans hscript')
      exact .inr ⟨hprovided, hran.hasPlutusScripts⟩
  votes := by
    intro voter votes hentry hvotes h hscript
    have hauth := hmandates.votes voter votes hentry hvotes
    rw [actsFor_eq_script.2 hscript] at hauth
    obtain hnative | hran := hauth
    · exact .inl ((nativeRan_iff hp).1 hnative)
    · exact .inr (hran.asked hp hindexed)

theorem mandates_authorised_of_covered (hvalid : tx.isValid = true)
    (hmandates : MandatesCovered v tx utxo) : MandatesAuthorised v tx utxo where
  certificates := by
    intro i cert hi c hc
    have hcert := mem_of_getElem? hi
    cases c with
    | verificationKey keyHash =>
      refine (signed_iff hp).2 ?_
      obtain hrequired | ⟨params, rfl, rfl⟩ := key_mem_actsFor hc
      · exact (witnessCompleteness_eq_nil hp.witnesses).certificateKeys cert hcert _ hrequired
      · exact hmandates.operators params hcert
    | script h =>
    have hscript := script_mem_actsFor.1 hc
    obtain hnative | ⟨hprovided, hplutus⟩ := hmandates.certificates cert hcert h hscript
    · exact .inl ((nativeRan_iff hp).2 hnative)
    · exact .inr (plutusRan_of_same hp hindexed hvalid hplutus (by decide)
        (getElem?_onlyPlutus.2 ⟨cert, hi, hscript, hprovided⟩)
        (getElem?_map_eq_some.2 ⟨cert, hi, certScriptHash_of_certificateScript hscript⟩))
  votes := by
    intro voter votes hentry hvotes
    cases hc : voter.actsFor with
    | verificationKey keyHash =>
      exact (signed_iff hp).2 ((witnessCompleteness_eq_nil hp.witnesses).voters voter
        (mem_map_of_mem hentry) keyHash (actsFor_eq_key hc))
    | script h =>
    have hscript := actsFor_eq_script.1 hc
    obtain hnative | hasked := hmandates.votes voter votes hentry hvotes h hscript
    · exact .inl ((nativeRan_iff hp).2 hnative)
    · exact .inr (hasked.ran hp hindexed hvalid hscript)

end Accepted

/-- The certificates and votes of an accepted transaction take effect when it is marked valid. They
are then authorised by the credentials they act for, exactly when the operators of its pool
registrations have a key witness, the scripts of its certificates are covered and every voting script
passes natively or is asked for a redeemer. -/
theorem mandates_authorised_iff (v : Validator) (ctx : ValidationContext) (tx : Transaction)
    (utxo : UtxoLookup) (haccepted : validateTransactionWithContext v ctx tx utxo = .ok ())
    (hindexed : Indexed v.crypto tx utxo) :
    (tx.isValid = true → MandatesAuthorised v tx utxo) ↔
      (tx.isValid = true → MandatesCovered v tx utxo) :=
  have hp := passed_of_accepted haccepted
  forall_congr' fun hvalid =>
    ⟨mandates_covered_of_authorised hp hindexed, mandates_authorised_of_covered hp hindexed hvalid⟩

/-! ## Two transactions -/

/-- Parameters of pool 9 in which a stranger pays the rewards to account 1 and names no owner. -/
def strangersPool : PoolParams where
  operator := 9
  vrfKeyhash := 1
  pledge := 0
  cost := 340
  margin := ⟨0, 1⟩
  rewardAccount := keyAccount
  poolOwners := []

/-- Register the pool again, which needs no deposit; an output of the native script that always
passes pays. -/
def strangersRegistration : Transaction where
  hash := 2
  body := { inputs := [⟨1, 0⟩], outputs := [nativeOutput 3], fee := 2,
            certificates := [.poolRegistration strangersPool] }
  witnessSet := { nativeScripts := [.scriptAll []] }

/-- The same network with pool 9. -/
def poolContext : ValidationContext := { emptyContext with registeredPools := some {9} }

/-- A pool is registered with new parameters without any signature. -/
theorem strangers_registration_not_authorised :
    validateTransactionWithContext plainValidator poolContext strangersRegistration nativeUtxo =
        .ok () ∧
      Indexed Crypto.plain strangersRegistration nativeUtxo ∧ strangersRegistration.isValid = true ∧
      ¬MandatesAuthorised plainValidator strangersRegistration nativeUtxo := by
  refine ⟨by decide +kernel, fun tag => ?_, rfl, fun hmandates => ?_⟩
  · cases tag <;> decide +kernel
  · obtain ⟨w, hw, -⟩ := hmandates.certificates 0 _ rfl (.verificationKey 9) mem_cons_self
    cases hw

/-- Delegate the vote of the native script that always passes. -/
def nativeDelegation : Transaction where
  hash := 2
  body := { inputs := [⟨1, 0⟩], outputs := [nativeOutput 3], fee := 2,
            certificates := [.voteDelegation (.script nativePass) .abstain] }
  witnessSet := { nativeScripts := [.scriptAll []] }

/-- The same network with an account of that script. -/
def accountContext : ValidationContext :=
  { emptyContext with
    rewardAccounts := some (Finmap.singleton (Credential.script nativePass).toTypedHash32 0)
    stakeKeyDeposits := some (Finmap.singleton (Credential.script nativePass).toTypedHash32 2) }

theorem nativeDelegation_covered : MandatesCovered plainValidator nativeDelegation nativeUtxo where
  operators := by
    intro params hparams
    cases mem_singleton.1 hparams
  certificates := by
    intro cert hcert h hscript
    obtain rfl := mem_singleton.1 hcert
    obtain rfl : nativePass = h := Option.some.inj hscript
    exact .inl ⟨.scriptAll [], mem_cons_self, rfl⟩
  votes := by
    intro voter votes hentry
    cases hentry

theorem native_delegation_authorised :
    validateTransactionWithContext plainValidator accountContext nativeDelegation nativeUtxo =
        .ok () ∧
      MandatesAuthorised plainValidator nativeDelegation nativeUtxo := by
  have haccepted : validateTransactionWithContext plainValidator accountContext nativeDelegation
      nativeUtxo = .ok () := by decide +kernel
  have hindexed : Indexed Crypto.plain nativeDelegation nativeUtxo := by
    intro tag
    cases tag <;> decide +kernel
  exact ⟨haccepted, (mandates_authorised_iff plainValidator accountContext nativeDelegation nativeUtxo
    haccepted hindexed).2 (fun _ => nativeDelegation_covered) rfl⟩

end Dugite
