import Dugite.Lib.FinMap
import Dugite.Lib.Sorted
import Dugite.Primitives.Header

/-!
# Transactions and blocks

The data types of the primitives crate: addresses, values, scripts, certificates, governance
actions, transactions and blocks. A `BTreeMap` inside a transaction is a `SortedMap`, because the
position of a key in it is what a redeemer points at. Coins and slots are natural numbers, an index
that the source keeps in a `u32` is a 32-bit vector.
-/

namespace Dugite

open BitVec

inductive Era where
  | byron | shelley | allegra | mary | alonzo | babbage | conway | dijkstra
  deriving DecidableEq

/-- The position of an era in the declaration order, by which the source compares eras. -/
def Era.rank (e : Era) : Nat := e.ctorIdx

/-! ## Credentials and addresses -/

inductive Credential where
  | verificationKey (hash : Hash28)
  | script (hash : Hash28)
  deriving DecidableEq, Ord

namespace Credential

def toHash : Credential → Hash28
  | verificationKey h => h
  | script h => h

def isScript : Credential → Bool
  | verificationKey _ => false
  | script _ => true

/-- The hash of a key credential. -/
def keyHash : Credential → Option Hash28
  | verificationKey h => some h
  | script _ => none

/-- The hash of a script credential. -/
def scriptHash : Credential → Option Hash28
  | verificationKey _ => none
  | script h => some h

def ledgerRank : Credential → Nat
  | script _ => 0
  | verificationKey _ => 1

/-- The order of the ledger, scripts before keys; the derived order has keys before scripts. -/
def cmpLedger (a b : Credential) : Ordering :=
  (compare a.ledgerRank b.ledgerRank).then (compare a.toHash b.toHash)

/-- The 28 bytes of the hash, then `0x01` for a script and `0x00` for a key, then three zeros. -/
def toTypedHash32 (c : Credential) : Hash32 :=
  c.toHash ++ (if c.isScript then 0x01000000#32 else 0#32)

theorem scriptHash_eq_some {c : Credential} {h : Hash28} :
    c.scriptHash = some h ↔ c = script h := by
  cases c <;> simp [scriptHash]

theorem toTypedHash32_injective : Function.Injective toTypedHash32 := by
  intro a b hab
  have hhash := congrArg (extractLsb' 32 224) hab
  have htag := congrArg (extractLsb' 0 32) hab
  simp only [toTypedHash32] at hhash htag
  rw [extractLsb'_append_eq_left, extractLsb'_append_eq_left] at hhash
  rw [extractLsb'_append_eq_right, extractLsb'_append_eq_right] at htag
  cases a with
  | verificationKey x =>
    cases b with
    | verificationKey y => exact congrArg verificationKey hhash
    | script y => exact absurd htag (by decide : ¬(0#32 = 0x01000000#32))
  | script x =>
    cases b with
    | verificationKey y => exact absurd htag (by decide : ¬(0x01000000#32 = 0#32))
    | script y => exact congrArg script hhash

end Credential

/-- `Hash28::to_hash32_padded`: four zero bytes at the end. -/
def Hash28.toHash32Padded (h : Hash28) : Hash32 := h ++ 0#32

/-- The first 28 bytes, which undo the padding. -/
def Hash32.toHash28 (h : Hash32) : Hash28 := h.extractLsb' 32 224

structure Pointer where
  (slot txIndex certIndex : Nat)
  deriving DecidableEq

inductive NetworkId where
  | testnet | mainnet
  deriving DecidableEq

structure ByronAddress where
  payload : Bytes
  deriving DecidableEq

inductive Address where
  | base (network : NetworkId) (payment stake : Credential)
  | enterprise (network : NetworkId) (payment : Credential)
  | pointer (network : NetworkId) (payment : Credential) (pointer : Pointer)
  | reward (network : NetworkId) (stake : Credential)
  | byron (address : ByronAddress)
  deriving DecidableEq

def Address.paymentCredential : Address → Option Credential
  | .base _ payment _ => some payment
  | .enterprise _ payment => some payment
  | .pointer _ payment _ => some payment
  | .reward _ _ => none
  | .byron _ => none

/-- The script that locks an address, if its payment credential is one. -/
def Address.scriptHash (a : Address) : Option Hash28 := a.paymentCredential.bind (·.scriptHash)

/-- The minicbor decoder at a position of its input: each reader returns what it read and the rest
of the input, or nothing when the input does not start with such an item. -/
structure Minicbor where
  array : Bytes → Option Bytes
  tag : Bytes → Option (Nat × Bytes)
  bytes : Bytes → Option (Bytes × Bytes)
  skip : Bytes → Option Bytes
  u32 : Bytes → Option (Nat × Bytes)

/-- The address payload inside its CRC wrapper, when there is one. -/
def ByronAddress.innerBytes (cbor : Minicbor) (a : ByronAddress) : Option Bytes :=
  if a.payload.head? = some 0x82 then do
    let rest ← cbor.array a.payload
    let (tag, rest) ← cbor.tag rest
    if tag = 24 then (cbor.bytes rest).map (·.1) else none
  else some a.payload

/-- A Byron redeem (AVVM) address: the address type after root and attributes is 2. -/
def ByronAddress.isRedeem (cbor : Minicbor) (a : ByronAddress) : Bool :=
  match a.innerBytes cbor with
  | none => false
  | some inner =>
    let addrType := do
      let rest ← cbor.array inner
      let (_, rest) ← cbor.bytes rest
      let rest ← cbor.skip rest
      cbor.u32 rest
    addrType.map (·.1) = some 2

/-- `matches!(&output.address, Address::Byron(b) if b.is_redeem())`. -/
def Address.isRedeem (cbor : Minicbor) : Address → Bool
  | .byron a => a.isRedeem cbor
  | _ => false

/-! ## Values, scripts and outputs -/

abbrev AssetName := Bytes

structure Value where
  coin : Nat
  multiAsset : SortedMap Hash28 (SortedMap AssetName Nat)

/-- `Value::lovelace`. -/
def Value.lovelace (coin : Nat) : Value := ⟨coin, ∅⟩

inductive NativeScript where
  | scriptPubkey (keyHash : Hash32)
  | scriptAll (scripts : List NativeScript)
  | scriptAny (scripts : List NativeScript)
  | scriptNOfK (n : Nat) (scripts : List NativeScript)
  | invalidBefore (slot : Nat)
  | invalidHereafter (slot : Nat)
  | requireGuard (guard : Credential)

inductive PlutusData where
  | constr (tag : Nat) (fields : List PlutusData)
  | map (entries : List (PlutusData × PlutusData))
  | list (items : List PlutusData)
  | integer (value : Int)
  | bytes (value : Bytes)

inductive ScriptRef where
  | nativeScript (script : NativeScript)
  | plutusV1 (bytes : Bytes)
  | plutusV2 (bytes : Bytes)
  | plutusV3 (bytes : Bytes)
  | plutusV4 (bytes : Bytes)

inductive OutputDatum where
  | none
  | datumHash (hash : Hash32)
  | inlineDatum (data : PlutusData) (rawCbor : Option Bytes)

structure TransactionInput where
  transactionId : Hash32
  index : BitVec 32
  deriving DecidableEq

structure TransactionOutput where
  address : Address
  value : Value
  datum : OutputDatum := .none
  scriptRef : Option ScriptRef := none
  isLegacy : Bool := false
  rawCbor : Option Bytes := none

/-! ## Certificates and governance -/

structure Anchor where
  url : String
  dataHash : Hash32
  deriving DecidableEq

inductive DRep where
  | keyHash (hash : Hash32)
  | scriptHash (hash : Hash28)
  | abstain
  | noConfidence
  deriving DecidableEq

def DRep.credentialHash32 : DRep → Option Hash32
  | keyHash h => some h
  | scriptHash h => some (Credential.script h).toTypedHash32
  | abstain => none
  | noConfidence => none

structure Rational where
  numerator : Nat
  denominator : Nat
  deriving DecidableEq

structure PoolMetadata where
  url : String
  hash : Hash32
  deriving DecidableEq

inductive Relay where
  | singleHostAddr (port : Option Nat) (ipv4 ipv6 : Option Bytes)
  | singleHostName (port : Option Nat) (dnsName : String)
  | multiHostName (dnsName : String)
  deriving DecidableEq

structure PoolParams where
  operator : Hash28
  vrfKeyhash : Hash32
  pledge : Nat
  cost : Nat
  margin : Rational
  rewardAccount : Bytes
  poolOwners : List Hash28
  relays : List Relay := []
  poolMetadata : Option PoolMetadata := none
  deriving DecidableEq

inductive MIRSource where
  | reserves | treasury
  deriving DecidableEq

inductive MIRTarget where
  | stakeCredentials (credits : List (Credential × Int))
  | otherAccountingPot (coin : Nat)
  deriving DecidableEq

inductive Certificate where
  | stakeRegistration (credential : Credential)
  | stakeDeregistration (credential : Credential)
  | conwayStakeRegistration (credential : Credential) (deposit : Nat)
  | conwayStakeDeregistration (credential : Credential) (refund : Nat)
  | stakeDelegation (credential : Credential) (poolHash : Hash28)
  | poolRegistration (params : PoolParams)
  | poolRetirement (poolHash : Hash28) (epoch : Nat)
  | regDRep (credential : Credential) (deposit : Nat) (anchor : Option Anchor)
  | unregDRep (credential : Credential) (refund : Nat)
  | updateDRep (credential : Credential) (anchor : Option Anchor)
  | voteDelegation (credential : Credential) (drep : DRep)
  | stakeVoteDelegation (credential : Credential) (poolHash : Hash28) (drep : DRep)
  | regStakeDeleg (credential : Credential) (poolHash : Hash28) (deposit : Nat)
  | committeeHotAuth (coldCredential hotCredential : Credential)
  | committeeColdResign (coldCredential : Credential) (anchor : Option Anchor)
  | regStakeVoteDeleg (credential : Credential) (poolHash : Hash28) (drep : DRep) (deposit : Nat)
  | voteRegDeleg (credential : Credential) (drep : DRep) (deposit : Nat)
  | genesisKeyDelegation (genesisHash genesisDelegateHash vrfKeyhash : Hash32)
  | moveInstantaneousRewards (source : MIRSource) (target : MIRTarget)
  deriving DecidableEq

structure GovActionId where
  transactionId : Hash32
  actionIndex : BitVec 32
  deriving DecidableEq, Ord

structure Constitution where
  anchor : Anchor
  scriptHash : Option Hash28
  deriving DecidableEq

structure ExUnits where
  mem : Nat
  steps : Nat
  deriving DecidableEq

structure ExUnitPrices where
  (memPrice stepPrice : Rational)
  deriving DecidableEq

/-- The cost models by language; those of languages that the node does not know are kept too. -/
structure CostModels where
  plutusV1 : Option (List Int) := none
  plutusV2 : Option (List Int) := none
  plutusV3 : Option (List Int) := none
  plutusV4 : Option (List Int) := none
  unknownCostModels : FinMap (BitVec 8) (List Int) := ∅
  deriving DecidableEq

/-- A change of protocol parameters: the fields that `apply_protocol_param_update_impl` reads. -/
structure ProtocolParamUpdate where
  minFeeA : Option Nat := none
  minFeeB : Option Nat := none
  maxBlockBodySize : Option Nat := none
  maxTxSize : Option Nat := none
  maxBlockHeaderSize : Option Nat := none
  keyDeposit : Option Nat := none
  poolDeposit : Option Nat := none
  eMax : Option Nat := none
  nOpt : Option Nat := none
  a0 : Option Rational := none
  rho : Option Rational := none
  tau : Option Rational := none
  minPoolCost : Option Nat := none
  adaPerUtxoByte : Option Nat := none
  minUtxoValue : Option Nat := none
  costModels : Option CostModels := none
  executionCosts : Option ExUnitPrices := none
  maxTxExUnits : Option ExUnits := none
  maxBlockExUnits : Option ExUnits := none
  maxValSize : Option Nat := none
  collateralPercentage : Option Nat := none
  maxCollateralInputs : Option Nat := none
  minFeeRefScriptCostPerByte : Option Rational := none
  d : Option Rational := none
  protocolVersionMajor : Option Nat := none
  protocolVersionMinor : Option Nat := none
  drepDeposit : Option Nat := none
  govActionDeposit : Option Nat := none
  govActionLifetime : Option Nat := none
  dvtPpNetworkGroup : Option Rational := none
  dvtPpEconomicGroup : Option Rational := none
  dvtPpTechnicalGroup : Option Rational := none
  dvtPpGovGroup : Option Rational := none
  dvtHardFork : Option Rational := none
  dvtNoConfidence : Option Rational := none
  dvtCommitteeNormal : Option Rational := none
  dvtCommitteeNoConfidence : Option Rational := none
  dvtConstitution : Option Rational := none
  dvtTreasuryWithdrawal : Option Rational := none
  pvtMotionNoConfidence : Option Rational := none
  pvtCommitteeNormal : Option Rational := none
  pvtCommitteeNoConfidence : Option Rational := none
  pvtHardFork : Option Rational := none
  pvtPpSecurityGroup : Option Rational := none
  minCommitteeSize : Option Nat := none
  committeeTermLimit : Option Nat := none
  drepActivity : Option Nat := none
  deriving DecidableEq

inductive GovAction where
  | parameterChange (prevActionId : Option GovActionId) (update : ProtocolParamUpdate)
      (policyHash : Option Hash28)
  | hardForkInitiation (prevActionId : Option GovActionId) (protocolVersion : Nat × Nat)
  | treasuryWithdrawals (withdrawals : SortedMap Bytes Nat) (policyHash : Option Hash28)
  | noConfidence (prevActionId : Option GovActionId)
  | updateCommittee (prevActionId : Option GovActionId) (membersToRemove : List Credential)
      (membersToAdd : SortedMap Credential Nat) (threshold : Rational)
  | newConstitution (prevActionId : Option GovActionId) (constitution : Constitution)
  | infoAction

structure ProposalProcedure where
  deposit : Nat
  returnAddr : Bytes
  govAction : GovAction
  anchor : Anchor

inductive Voter where
  | constitutionalCommittee (credential : Credential)
  | drep (credential : Credential)
  | stakePool (hash : Hash32)
  deriving DecidableEq, Ord

namespace Voter

/-- The script of a committee or DRep voter; a stake pool has none. -/
def scriptHash : Voter → Option Hash28
  | constitutionalCommittee c => c.scriptHash
  | drep c => c.scriptHash
  | stakePool _ => none

def ledgerRank : Voter → Nat
  | constitutionalCommittee _ => 0
  | drep _ => 1
  | stakePool _ => 2

/-- The order of the ledger: committee, DReps, pools, and in a group the credentials' order. -/
def cmpLedger (a b : Voter) : Ordering :=
  match compare a.ledgerRank b.ledgerRank with
  | .eq =>
    match a, b with
    | constitutionalCommittee a, constitutionalCommittee b => a.cmpLedger b
    | drep a, drep b => a.cmpLedger b
    | stakePool a, stakePool b => compare a b
    | _, _ => .eq
  | ordering => ordering

end Voter

inductive Vote where
  | no | yes | abstain
  deriving DecidableEq

structure VotingProcedure where
  vote : Vote
  anchor : Option Anchor
  deriving DecidableEq

/-! ## Witnesses, transactions and blocks -/

inductive RedeemerTag where
  | spend | mint | cert | reward | vote | propose | guarding
  deriving DecidableEq

structure Redeemer where
  tag : RedeemerTag
  index : BitVec 32
  data : PlutusData
  exUnits : ExUnits

structure VKeyWitness where
  vkey : Bytes
  signature : Bytes
  deriving DecidableEq

structure BootstrapWitness where
  (vkey signature chainCode attributes : Bytes)
  deriving DecidableEq

structure TransactionWitnessSet where
  vkeyWitnesses : List VKeyWitness := []
  nativeScripts : List NativeScript := []
  bootstrapWitnesses : List BootstrapWitness := []
  plutusV1Scripts : List Bytes := []
  plutusV2Scripts : List Bytes := []
  plutusV3Scripts : List Bytes := []
  plutusData : List PlutusData := []
  redeemers : List Redeemer := []
  /-- The wire bytes of `plutusData`, when the transaction was decoded. -/
  rawPlutusDataCbor : Option Bytes := none

structure AccountBalanceInterval where
  (lower upper : Option Nat)
  deriving DecidableEq

/-- What a voter votes on, and how. -/
abbrev VotingProcedures := SortedMap Voter (SortedMap GovActionId VotingProcedure)

/-- Minted (positive) and burned (negative) amounts. -/
abbrev Mint := SortedMap Hash28 (SortedMap AssetName Int)

structure SubTransaction where
  txId : Hash32
  inputs : List TransactionInput := []
  outputs : List TransactionOutput := []
  ttl : Option Nat := none
  certificates : List Certificate := []
  withdrawals : SortedMap Bytes Nat := ∅
  validityIntervalStart : Option Nat := none
  mint : Mint := ∅
  votingProcedures : VotingProcedures := ∅
  proposalProcedures : List ProposalProcedure := []
  directDeposits : SortedMap Bytes Nat := ∅
  accountBalanceIntervals : List (Credential × AccountBalanceInterval) := []
  witnessSet : TransactionWitnessSet := {}

structure TransactionBody where
  inputs : List TransactionInput := []
  outputs : List TransactionOutput := []
  fee : Nat := 0
  ttl : Option Nat := none
  certificates : List Certificate := []
  withdrawals : SortedMap Bytes Nat := ∅
  auxiliaryDataHash : Option Hash32 := none
  validityIntervalStart : Option Nat := none
  mint : Mint := ∅
  scriptDataHash : Option Hash32 := none
  collateral : List TransactionInput := []
  requiredSigners : List Hash32 := []
  networkId : Option Nat := none
  collateralReturn : Option TransactionOutput := none
  totalCollateral : Option Nat := none
  referenceInputs : List TransactionInput := []
  votingProcedures : VotingProcedures := ∅
  proposalProcedures : List ProposalProcedure := []
  treasuryValue : Option Nat := none
  donation : Option Nat := none
  subTransactions : List SubTransaction := []
  accountBalanceIntervals : List (Credential × AccountBalanceInterval) := []
  directDeposits : SortedMap Bytes Nat := ∅
  guards : List Credential := []

structure Transaction where
  hash : Hash32
  era : Era := .conway
  body : TransactionBody := {}
  witnessSet : TransactionWitnessSet := {}
  isValid : Bool := true
  rawCbor : Option Bytes := none
  /-- The wire bytes of the witness set, when the transaction was decoded. -/
  rawWitnessCbor : Option Bytes := none

structure Block where
  header : BlockHeader
  transactions : List Transaction
  era : Era

end Dugite
