import Dugite.Lib.Positions
import Dugite.Validation.Redeemers

/-!
# Redeemer resolution in phase 2

`resolve_redeemer` reads the tag and the index of a redeemer back to an item of the transaction
body, takes the script hash of the item, finds the script and prepares what the script is run on.
The positions are those of the ledger: the inputs are a set, and in the withdrawals and the voters a
script credential stands before a key credential.
-/

namespace Dugite

open Checks

inductive PhaseTwoError where
  | notImplemented
  | txDecode (reason : String)
  | utxoDecode (reason : String)
  | costModelDecode (reason : String)
  | missingScript (scriptHash : String)
  | missingDatum (hash : String)
  | scriptEvaluationFailed (error : String)
  | scriptEvaluationFailedWithLogs (error : String) (logs : List String)
  | internal (reason : String)
  | timeTranslationPastHorizon (slot horizon : Nat)
  deriving DecidableEq

inductive ScriptLanguage where
  | plutusV1 | plutusV2 | plutusV3 | plutusV4
  deriving DecidableEq

/-- What a script is run for. -/
inductive ScriptPurpose where
  | spending (txId : Hash32) (idx : Nat)
  | minting (policyId : Hash28)
  | certifying (idx : Nat) (cert : PlutusData)
  | rewarding (script : Hash28)
  | voting (voter : PlutusData)
  | proposing (idx : Nat) (proposal : PlutusData)
  | guarding (script : Hash28)

structure ResolvedRedeemer where
  tag : RedeemerTag
  index : BitVec 32
  scriptHash : Hash28
  scriptBytes : Bytes
  language : ScriptLanguage
  purpose : ScriptPurpose
  datum : Option PlutusData
  redeemerData : PlutusData
  declaredExUnits : Nat × Nat

/-- The encoders between the body and the scripts: CBOR of native scripts and of data, the wire
spans of the witness data, and the Plutus forms of certificates, proposals and voters. -/
structure PlutusTranslation where
  encodeNativeScript : NativeScript → Bytes
  /-- The wire bytes of the native scripts of a witness set. -/
  witnessNativeScriptOriginalBytes : Bytes → Option (List Bytes)
  /-- The wire bytes of the native reference script of an output. -/
  referenceNativeScriptOriginalBytes : Bytes → Option Bytes
  plutusDataElementSpans : Bytes → Option (List Bytes)
  toCbor : PlutusData → Except String Bytes
  (certificateToPlutusV1V2 certificateToPlutus : Certificate → Except PhaseTwoError PlutusData)
  proposalToPlutus : ProposalProcedure → Except PhaseTwoError PlutusData
  voterToPlutus : Voter → PlutusData
  addressDebug : Address → String

/-- The outputs that phase 2 is given: those of the inputs, the reference inputs and the collateral
that are in the set. -/
def resolvePhase2UtxoPairs (tx : Transaction) (utxo : UtxoLookup) :
    List (TransactionInput × TransactionOutput) :=
  (tx.body.inputs ++ tx.body.referenceInputs ++ tx.body.collateral).filterMap fun input =>
    (utxo input).map (input, ·)

/-! ## Positions -/

/-- The inputs as a sorted set. -/
def sortInputs (inputs : List TransactionInput) : List TransactionInput :=
  Positions.dedupAdjacent (inputs.insertionSort (· ≤ ·))

/-- The voters in the order of the ledger. -/
def ledgerOrderedVoters (votes : VotingProcedures) : List Voter :=
  votes.keys.insertionSort fun a b => (a.cmpLedger b).isLE

/-- The accounts of the withdrawals, each of which must be a reward address. -/
def withdrawalStakes (T : PlutusTranslation) :
    List (Bytes × Nat) → Except PhaseTwoError (List (Credential × Nat))
  | [] => .ok []
  | (account, amount) :: rest =>
    match Address.fromBytes account with
    | .error e => .error (.internal ("ledger_ordered_withdrawals: reward_account: " ++ e.text))
    | .ok (.reward _ stake) => do
      let out ← withdrawalStakes T rest
      return (stake, amount) :: out
    | .ok other => .error (.internal
        ("ledger_ordered_withdrawals: expected Reward address, got " ++ T.addressDebug other))

/-- The withdrawals in the order of the ledger. -/
def ledgerOrderedWithdrawals (T : PlutusTranslation) (wdrl : SortedMap Bytes Nat) :
    Except PhaseTwoError (List (Credential × Nat)) := do
  let out ← withdrawalStakes T wdrl.entries
  return out.insertionSort fun a b => (a.1.cmpLedger b.1).isLE

/-- The script a certificate is dispatched to; here also the registration without a deposit. -/
def certScriptHash : Certificate → Option Hash28
  | .stakeRegistration c => c.scriptHash
  | .stakeDeregistration c => c.scriptHash
  | .conwayStakeRegistration c _ => c.scriptHash
  | .conwayStakeDeregistration c _ => c.scriptHash
  | .stakeDelegation c _ => c.scriptHash
  | .regDRep c _ _ => c.scriptHash
  | .unregDRep c _ => c.scriptHash
  | .updateDRep c _ => c.scriptHash
  | .voteDelegation c _ => c.scriptHash
  | .stakeVoteDelegation c _ _ => c.scriptHash
  | .regStakeDeleg c _ _ => c.scriptHash
  | .regStakeVoteDeleg c _ _ _ => c.scriptHash
  | .voteRegDeleg c _ _ => c.scriptHash
  | .committeeHotAuth c _ => c.scriptHash
  | .committeeColdResign c _ => c.scriptHash
  | .poolRegistration _ => none
  | .poolRetirement _ _ => none
  | .genesisKeyDelegation _ _ _ => none
  | .moveInstantaneousRewards _ _ => none

/-- The guardrail script of a proposal. -/
def proposalScriptHash (p : ProposalProcedure) : Option Hash28 :=
  match p.govAction with
  | .parameterChange _ _ policyHash => policyHash
  | .treasuryWithdrawals _ policyHash => policyHash
  | _ => none

section Resolve
variable (crypto : Crypto) (T : PlutusTranslation)

/-! ## Scripts and datums -/

def scriptRefHash : ScriptRef → Hash28
  | .nativeScript ns => crypto.blake2b224Tagged 0 (T.encodeNativeScript ns)
  | .plutusV1 bytes => crypto.blake2b224Tagged 1 bytes
  | .plutusV2 bytes => crypto.blake2b224Tagged 2 bytes
  | .plutusV3 bytes => crypto.blake2b224Tagged 3 bytes
  | .plutusV4 bytes => crypto.blake2b224Tagged 4 bytes

/-- A script of the witness set with this hash. -/
def witnessScript (scripts : List Bytes) (tag : UInt8) (language : ScriptLanguage) (h : Hash28) :
    Option (Bytes × ScriptLanguage) :=
  (scripts.find? fun raw => crypto.blake2b224Tagged tag raw = h).map (·, language)

/-- The witness set first, by language, then the reference scripts; the first match decides. -/
def findScriptBytes (tx : Transaction) (resolved : List (TransactionInput × TransactionOutput))
    (h : Hash28) : Except PhaseTwoError (Bytes × ScriptLanguage) :=
  match witnessScript crypto tx.witnessSet.plutusV1Scripts 1 .plutusV1 h <|>
      witnessScript crypto tx.witnessSet.plutusV2Scripts 2 .plutusV2 h <|>
      witnessScript crypto tx.witnessSet.plutusV3Scripts 3 .plutusV3 h with
  | some found => .ok found
  | none =>
    match (resolved.filterMap (·.2.scriptRef)).find? fun s => scriptRefHash crypto T s = h with
    | some (.plutusV1 bytes) => .ok (bytes, .plutusV1)
    | some (.plutusV2 bytes) => .ok (bytes, .plutusV2)
    | some (.plutusV3 bytes) => .ok (bytes, .plutusV3)
    | some (.plutusV4 bytes) => .ok (bytes, .plutusV4)
    | some (.nativeScript _) => .error (.internal ("find_script_bytes: script " ++ h.toHex ++
        " resolves to a native script — phase-2 only evaluates Plutus"))
    | none => .error (.missingScript h.toHex)

/-- Search the witness data by the hash of its own encoding. -/
def findDatum (hash : Hash32) : List PlutusData → Except PhaseTwoError PlutusData
  | [] => .error (.missingDatum hash.toHex)
  | d :: rest =>
    match T.toCbor d with
    | .error e => .error (.internal ("resolve_spend_datum: to_cbor: " ++ e))
    | .ok cbor => if crypto.blake2b256 cbor = hash then .ok d else findDatum hash rest

/-- The datum of a V1 or V2 spending script: inline, or in the witness set, there compared by the
wire bytes when these are known. -/
def resolveSpendDatum (tx : Transaction) (spentOutput : TransactionOutput) (h : Hash28) :
    Except PhaseTwoError PlutusData :=
  match spentOutput.datum with
  | .inlineDatum data _ => .ok data
  | .datumHash hash =>
    let data := tx.witnessSet.plutusData
    match (tx.witnessSet.rawPlutusDataCbor.bind T.plutusDataElementSpans).filter
        fun spans => spans.length = data.length with
    | some spans =>
      okOr (.missingDatum hash.toHex)
        (((spans.zip data).find? fun e => crypto.blake2b256 e.1 = hash).map (·.2))
    | none => findDatum crypto T hash data
  | .none => .error (.missingDatum
      ("(no datum on script-locked output; script " ++ h.toHex ++ ")"))

/-! ## The resolvers -/

/-- The resolved redeemer, without a datum. -/
def Redeemer.resolved (r : Redeemer) (h : Hash28) (script : Bytes × ScriptLanguage)
    (purpose : ScriptPurpose) : ResolvedRedeemer :=
  { tag := r.tag, index := r.index, scriptHash := h, scriptBytes := script.1,
    language := script.2, purpose, datum := none, redeemerData := r.data,
    declaredExUnits := (r.exUnits.mem, r.exUnits.steps) }

/-- The error for an index past the end of a collection. -/
def outOfRange (purpose collection : String) (idx : Nat) (size : String) : PhaseTwoError :=
  .internal (purpose ++ " redeemer references " ++ collection ++ "[" ++ toString idx ++
    "] but tx has " ++ size)

/-- The error for an item that no script locks. -/
def noScript (purpose : String) (idx : Nat) (reason : String) : PhaseTwoError :=
  .internal (purpose ++ " redeemer #" ++ toString idx ++ ": " ++ reason)

variable (tx : Transaction) (resolved : List (TransactionInput × TransactionOutput))

/-- Only the first two languages take the datum as an argument of its own. -/
def spendDatum (out : TransactionOutput) (h : Hash28) :
    ScriptLanguage → Except PhaseTwoError (Option PlutusData)
  | .plutusV1 | .plutusV2 => do
    let datum ← resolveSpendDatum crypto T tx out h
    return some datum
  | .plutusV3 | .plutusV4 => return none

def resolveSpend (r : Redeemer) : Except PhaseTwoError ResolvedRedeemer := do
  let idx := r.index.toNat
  let input ← okOr (outOfRange "spend" "inputs" idx (toString tx.body.inputs.length ++ " inputs"))
    (sortInputs tx.body.inputs)[idx]?
  let entry ← okOr
    (.utxoDecode ("spend redeemer #" ++ toString idx ++ ": input not in resolved utxo map"))
    (resolved.find? fun e => e.1 = input)
  let h ← okOr (noScript "spend" idx "spent output's address is not script-locked")
    entry.2.address.scriptHash
  let script ← findScriptBytes crypto T tx resolved h
  let datum ← spendDatum crypto T tx entry.2 h script.2
  return { r.resolved h script (.spending input.transactionId input.index.toNat) with datum }

def resolveMint (r : Redeemer) : Except PhaseTwoError ResolvedRedeemer := do
  let idx := r.index.toNat
  let policies := tx.body.mint.keys
  let policyId ← okOr (outOfRange "mint" "policy" idx (toString policies.length ++ " policies"))
    policies[idx]?
  let script ← findScriptBytes crypto T tx resolved policyId
  return r.resolved policyId script (.minting policyId)

/-- The form of a certificate in a script context: each schema of its own language. -/
def certificateFor (cert : Certificate) : ScriptLanguage → Except PhaseTwoError PlutusData
  | .plutusV1 | .plutusV2 => T.certificateToPlutusV1V2 cert
  | .plutusV3 | .plutusV4 => T.certificateToPlutus cert

section
variable (r : Redeemer)

def resolveCert : Except PhaseTwoError ResolvedRedeemer := do
  let idx := r.index.toNat
  let certs := tx.body.certificates
  let cert ← okOr (outOfRange "cert" "certificates" idx (toString certs.length)) certs[idx]?
  let h ← okOr (noScript "cert" idx "cert does not carry a script credential") (certScriptHash cert)
  let script ← findScriptBytes crypto T tx resolved h
  let txCert ← certificateFor T cert script.2
  return r.resolved h script (.certifying idx txCert)

def resolveReward : Except PhaseTwoError ResolvedRedeemer := do
  let idx := r.index.toNat
  let ordered ← ledgerOrderedWithdrawals T tx.body.withdrawals
  let entry ← okOr (outOfRange "reward" "withdrawals" idx
    (toString tx.body.withdrawals.entries.length)) ordered[idx]?
  let h ← okOr (noScript "reward" idx "stake credential is a key, not a script") entry.1.scriptHash
  let script ← findScriptBytes crypto T tx resolved h
  return r.resolved h script (.rewarding h)

def resolveVote : Except PhaseTwoError ResolvedRedeemer := do
  let idx := r.index.toNat
  let voters := ledgerOrderedVoters tx.body.votingProcedures
  let voter ← okOr (outOfRange "vote" "voting_procedures" idx (toString voters.length)) voters[idx]?
  let h ← okOr (noScript "vote" idx ("voter is not script-credentialed (StakePool voters are " ++
    "key-only; only DRep and CommitteeVoter with Script credential can run Plutus)"))
    voter.scriptHash
  let script ← findScriptBytes crypto T tx resolved h
  return r.resolved h script (.voting (T.voterToPlutus voter))

def resolvePropose : Except PhaseTwoError ResolvedRedeemer := do
  let idx := r.index.toNat
  let proposals := tx.body.proposalProcedures
  let proposal ← okOr (outOfRange "propose" "proposal_procedures" idx (toString proposals.length))
    proposals[idx]?
  let h ← okOr (noScript "propose" idx ("proposal does not carry a guardrail script hash " ++
    "(only ParameterChange and TreasuryWithdrawals can have a mandatory Plutus script)"))
    (proposalScriptHash proposal)
  let script ← findScriptBytes crypto T tx resolved h
  let plProposal ← T.proposalToPlutus proposal
  return r.resolved h script (.proposing idx plProposal)

def resolveGuarding : Except PhaseTwoError ResolvedRedeemer := do
  let idx := r.index.toNat
  let guards := tx.body.guards
  let cred ← okOr (outOfRange "guarding" "guards" idx (toString guards.length)) guards[idx]?
  let h ← okOr (noScript "guarding" idx ("guard credential is a key, not a script — " ++
    "only Plutus / native-script guards admit a Guarding redeemer")) cred.scriptHash
  let script ← findScriptBytes crypto T tx resolved h
  return r.resolved h script (.guarding h)

def resolveRedeemer : Except PhaseTwoError ResolvedRedeemer :=
  match r.tag with
  | .spend => resolveSpend crypto T tx resolved r
  | .mint => resolveMint crypto T tx resolved r
  | .cert => resolveCert crypto T tx resolved r
  | .reward => resolveReward crypto T tx resolved r
  | .vote => resolveVote crypto T tx resolved r
  | .propose => resolvePropose crypto T tx resolved r
  | .guarding => resolveGuarding crypto T tx resolved r

end

end Resolve

end Dugite
