import Dugite.Crypto.Primitives
import Dugite.Ledger.Utxo
import Dugite.Primitives.Address
import Dugite.Validation.Context
import Mathlib.Data.List.Sort
import Mathlib.Data.Prod.Lex

/-!
# The redeemer checks of phase 1

`check_script_redeemers` asks for a redeemer at the position of every item that a Plutus script
locks, `check_extra_redeemers` for an item at the position of every redeemer. Both walk the same
seven collections of the transaction body; `phase1Scripts` is the list of scripts that one of these
walks meets, position by position, with nothing where no redeemer is due.

A collection is walked in the order it has in the transaction: the inputs sorted by transaction id
and index, with repetitions; withdrawals, policies and voters in the order of their map; the others
as they are listed.
-/

namespace Dugite

open List

/-! ## The Plutus scripts a transaction brings -/

/-- The language tag and the bytes of a Plutus reference script. -/
def ScriptRef.plutus : ScriptRef → Option (UInt8 × Bytes)
  | .nativeScript _ => none
  | .plutusV1 bytes => some (1, bytes)
  | .plutusV2 bytes => some (2, bytes)
  | .plutusV3 bytes => some (3, bytes)
  | .plutusV4 bytes => some (4, bytes)

/-- The reference scripts on the outputs of the inputs and the reference inputs. -/
def referenceScripts (tx : Transaction) (utxo : UtxoLookup) : List ScriptRef :=
  (tx.body.inputs ++ tx.body.referenceInputs).filterMap fun input => (utxo input).bind (·.scriptRef)

section Checks
variable (crypto : Crypto)

section
variable (tx : Transaction) (utxo : UtxoLookup)

/-- Every Plutus script of the transaction with its language, by hash: the witness set first, then
the reference scripts. -/
def suppliedPlutusScripts : List (Hash28 × UInt8) :=
  tx.witnessSet.plutusV1Scripts.map (fun s => (crypto.blake2b224Tagged 1 s, 1)) ++
  tx.witnessSet.plutusV2Scripts.map (fun s => (crypto.blake2b224Tagged 2 s, 2)) ++
  tx.witnessSet.plutusV3Scripts.map (fun s => (crypto.blake2b224Tagged 3 s, 3)) ++
  (referenceScripts tx utxo).filterMap fun s =>
    s.plutus.map fun e => (crypto.blake2b224Tagged e.1 e.2, e.1)

def collectPlutusScriptHashes : Finset Hash28 :=
  ((suppliedPlutusScripts crypto tx utxo).map (·.1)).toFinset

def plutusScriptVersionMap : FinMap Hash28 UInt8 :=
  (suppliedPlutusScripts crypto tx utxo).foldl (fun map e => map.insert e.1 e.2) ∅

end

end Checks

/-- `script_versions.get(h).copied().unwrap_or(0) > 0`. -/
def isPlutus (scriptVersions : FinMap Hash28 UInt8) (h : Hash28) : Bool :=
  decide (0 < (scriptVersions.lookup h).getD 0)

/-! ## What the redeemers of each tag point at -/

/-- Transaction inputs in the order of their id, then of their index. -/
instance : LinearOrder TransactionInput :=
  LinearOrder.lift' (fun i => toLex (i.transactionId.toNat, i.index.toNat)) fun a b h => by
    obtain ⟨hid, hindex⟩ := Prod.mk.inj (toLex.injective h)
    cases a
    cases b
    simp only [TransactionInput.mk.injEq]
    exact ⟨BitVec.eq_of_toNat_eq hid, BitVec.eq_of_toNat_eq hindex⟩

variable (tx : Transaction)

/-- `sorted_inputs`: an input that the body lists twice stands here twice. -/
def sortedInputs : List TransactionInput := tx.body.inputs.insertionSort (· ≤ ·)

/-- The script that locks an unspent output. -/
def inputScript (utxo : UtxoLookup) (input : TransactionInput) : Option Hash28 :=
  (utxo input).bind (·.address.scriptHash)

/-- The script that must witness a certificate. The registration without a deposit is open to
anyone, and pools, genesis keys and MIR have no script. -/
def certificateScript : Certificate → Option Hash28
  | .stakeDeregistration c => c.scriptHash
  | .stakeDelegation c _ => c.scriptHash
  | .conwayStakeDeregistration c _ => c.scriptHash
  | .voteDelegation c _ => c.scriptHash
  | .stakeVoteDelegation c _ _ => c.scriptHash
  | .regStakeDeleg c _ _ => c.scriptHash
  | .regStakeVoteDeleg c _ _ _ => c.scriptHash
  | .voteRegDeleg c _ _ => c.scriptHash
  | .committeeHotAuth c _ => c.scriptHash
  | .committeeColdResign c _ => c.scriptHash
  | .regDRep c _ _ => c.scriptHash
  | .unregDRep c _ => c.scriptHash
  | .updateDRep c _ => c.scriptHash
  | .conwayStakeRegistration c _ => c.scriptHash
  | .stakeRegistration _ => none
  | .poolRegistration _ => none
  | .poolRetirement _ _ => none
  | .genesisKeyDelegation _ _ _ => none
  | .moveInstantaneousRewards _ _ => none

def govactionPolicyHash : GovAction → Option Hash28
  | .parameterChange _ _ policyHash => policyHash
  | .treasuryWithdrawals _ policyHash => policyHash
  | .hardForkInitiation _ _ => none
  | .noConfidence _ => none
  | .updateCommittee _ _ _ _ => none
  | .newConstitution _ _ => none
  | .infoAction => none

/-- Keep a script that needs a redeemer. -/
def onlyPlutus (plutus : Hash28 → Bool) (script : Option Hash28) : Option Hash28 :=
  script.filter plutus

/-- The scripts that the walk over the collection of a tag meets, position by position. The policy
of a proposal and the script of a guard count whatever their language. -/
def phase1Scripts (plutus : Hash28 → Bool) (tx : Transaction) (utxo : UtxoLookup) :
    RedeemerTag → List (Option Hash28)
  | .spend => (sortedInputs tx).map fun input => onlyPlutus plutus (inputScript utxo input)
  | .mint => tx.body.mint.keys.map fun policy => onlyPlutus plutus (some policy)
  | .cert => tx.body.certificates.map fun cert => onlyPlutus plutus (certificateScript cert)
  | .reward => tx.body.withdrawals.keys.map fun key => onlyPlutus plutus (withdrawalScript key)
  | .vote => tx.body.votingProcedures.keys.map fun voter => onlyPlutus plutus voter.scriptHash
  | .propose => tx.body.proposalProcedures.map fun proposal =>
      govactionPolicyHash proposal.govAction
  | .guarding => tx.body.guards.map fun guard => guard.scriptHash

/-! ## The two checks -/

/-- The tag's name, as it is printed. -/
def RedeemerTag.debug : RedeemerTag → String
  | .spend => "Spend"
  | .mint => "Mint"
  | .cert => "Cert"
  | .reward => "Reward"
  | .vote => "Vote"
  | .propose => "Propose"
  | .guarding => "Guarding"

/-- The positions where a walk met a script, as `u32`s. -/
def scriptPositions (scripts : List (Option Hash28)) : List (BitVec 32 × Hash28) :=
  scripts.zipIdx.filterMap fun e => e.1.map fun h => (BitVec.ofNat 32 e.2, h)

variable (tag : RedeemerTag)

/-- The indices of the redeemers of one tag. -/
def redeemerIndices : List (BitVec 32) :=
  (tx.witnessSet.redeemers.filter fun r => r.tag = tag).map (·.index)

/-- One loop of `check_script_redeemers`: the scripts without a redeemer at their position. -/
def missingRedeemers
    (error : BitVec 32 → Hash28 → ValidationError) (scripts : List (Option Hash28)) :
    List ValidationError :=
  (scriptPositions scripts).filterMap fun e =>
    if e.1 ∈ redeemerIndices tx tag then none else some (error e.1 e.2)

/-- A missing redeemer is reported with its tag, position and script. -/
def missingRedeemerError (index : BitVec 32) (h : Hash28) : ValidationError :=
  .missingRedeemer tag.debug index h.toHex

section
variable (crypto : Crypto) (tx : Transaction) (utxo : UtxoLookup)
  (scriptVersions : FinMap Hash28 UInt8)

/-- Every Plutus-locked item has a redeemer at its position. Guards are not asked for one. The
minting loop looks its policies up in `collectPlutusScriptHashes`, the others in the map of
versions. -/
def checkScriptRedeemers : List ValidationError :=
  let plutus := isPlutus scriptVersions
  let provided := fun h => decide (h ∈ collectPlutusScriptHashes crypto tx utxo)
  missingRedeemers tx .spend (fun index _ => .missingSpendRedeemer index)
    (phase1Scripts plutus tx utxo .spend) ++
  missingRedeemers tx .reward (missingRedeemerError .reward)
    (phase1Scripts plutus tx utxo .reward) ++
  missingRedeemers tx .mint (missingRedeemerError .mint)
    (phase1Scripts provided tx utxo .mint) ++
  missingRedeemers tx .cert (missingRedeemerError .cert)
    (phase1Scripts plutus tx utxo .cert) ++
  missingRedeemers tx .vote (missingRedeemerError .vote)
    (phase1Scripts plutus tx utxo .vote) ++
  missingRedeemers tx .propose (missingRedeemerError .propose)
    (phase1Scripts plutus tx utxo .propose)

/-- The pairs of tag and position that a redeemer may have. -/
def validPurposes (tag : RedeemerTag) : List (BitVec 32) :=
  let provided := fun h => decide (h ∈ collectPlutusScriptHashes crypto tx utxo)
  let plutus := if tag = .mint then provided else isPlutus scriptVersions
  (scriptPositions (phase1Scripts plutus tx utxo tag)).map (·.1)

/-- Every redeemer has an item at its position. -/
def checkExtraRedeemers : List ValidationError :=
  tx.witnessSet.redeemers.filterMap fun r =>
    if r.index ∈ validPurposes crypto tx utxo scriptVersions r.tag then none
    else some (.extraRedeemer r.tag.debug r.index)

end

/-! ## What passing the checks means -/

variable {scripts : List (Option Hash28)}

theorem mem_scriptPositions {k : BitVec 32} {h : Hash28} : (k, h) ∈ scriptPositions scripts ↔
      ∃ i : Nat, scripts[i]? = some (some h) ∧ k = BitVec.ofNat 32 i := by
  simp only [scriptPositions, mem_filterMap, Prod.exists, mem_zipIdx_iff_getElem?,
    Option.map_eq_some_iff, Prod.mk.injEq]
  constructor
  · rintro ⟨script, i, hi, b, rfl, rfl, rfl⟩
    exact ⟨i, hi, rfl⟩
  · rintro ⟨i, hi, rfl⟩
    exact ⟨some h, i, hi, h, rfl, rfl, rfl⟩

theorem missingRedeemers_eq_nil {tx : Transaction} {tag : RedeemerTag}
    {error : BitVec 32 → Hash28 → ValidationError} :
    missingRedeemers tx tag error scripts = [] ↔
      ∀ (i : Nat) (h : Hash28), scripts[i]? = some (some h) →
        ∃ r ∈ tx.witnessSet.redeemers, r.tag = tag ∧ r.index = BitVec.ofNat 32 i := by
  have hindices : ∀ k, k ∈ redeemerIndices tx tag ↔
      ∃ r ∈ tx.witnessSet.redeemers, r.tag = tag ∧ r.index = k := by
    intro k
    simp only [redeemerIndices, mem_map, mem_filter, decide_eq_true_eq, and_assoc]
  simp only [missingRedeemers, filterMap_eq_nil_iff, Prod.forall, mem_scriptPositions,
    ite_eq_left_iff, reduceCtorEq, imp_false, not_not, hindices]
  constructor
  · intro hall i h hi
    exact hall _ h ⟨i, hi, rfl⟩
  · rintro hall k h ⟨i, hi, rfl⟩
    exact hall i h hi

/-- The map of versions holds exactly the hashes that were collected: no language has tag 0. -/
theorem isPlutus_versionMap (crypto : Crypto) (tx : Transaction) (utxo : UtxoLookup) :
    isPlutus (plutusScriptVersionMap crypto tx utxo) =
      fun h => decide (h ∈ collectPlutusScriptHashes crypto tx utxo) := by
  have hfold : ∀ (l : List (Hash28 × UInt8)) (m : FinMap Hash28 UInt8) (h : Hash28),
      (∀ e ∈ l, 0 < e.2) →
      (isPlutus (l.foldl (fun map e => map.insert e.1 e.2) m) h = true ↔
        isPlutus m h = true ∨ h ∈ l.map (·.1)) := by
    intro l
    induction l with
    | nil => simp
    | cons e l ih =>
      intro m h hpos
      rw [foldl_cons, ih _ h fun e he => hpos e (mem_cons_of_mem _ he)]
      have hinsert : isPlutus (m.insert e.1 e.2) h = true ↔ h = e.1 ∨ isPlutus m h = true := by
        simp only [isPlutus, FinMap.lookup_insert_ite]
        split
        · next heq => simp [heq, hpos e mem_cons_self]
        · next hne => simp [hne]
      rw [hinsert, map_cons, mem_cons]
      exact ⟨fun h => by tauto, fun h => by tauto⟩
  have hpos : ∀ e ∈ suppliedPlutusScripts crypto tx utxo, 0 < e.2 := by
    intro e he
    simp only [suppliedPlutusScripts, mem_append, mem_map, mem_filterMap,
      Option.map_eq_some_iff] at he
    obtain ((⟨s, -, rfl⟩ | ⟨s, -, rfl⟩) | ⟨s, -, rfl⟩) | ⟨s, -, a, hs, rfl⟩ := he
    · exact (by decide : (0 : UInt8) < 1)
    · exact (by decide : (0 : UInt8) < 2)
    · exact (by decide : (0 : UInt8) < 3)
    · cases s with
      | nativeScript => cases hs
      | plutusV1 => cases hs; exact (by decide : (0 : UInt8) < 1)
      | plutusV2 => cases hs; exact (by decide : (0 : UInt8) < 2)
      | plutusV3 => cases hs; exact (by decide : (0 : UInt8) < 3)
      | plutusV4 => cases hs; exact (by decide : (0 : UInt8) < 4)
  funext h
  rw [Bool.eq_iff_iff, plutusScriptVersionMap, hfold _ _ _ hpos, decide_eq_true_eq,
    collectPlutusScriptHashes, mem_toFinset]
  simp [isPlutus]

section Passing
variable {crypto : Crypto} {tx : Transaction} {utxo : UtxoLookup}

/-- The scripts of this transaction that are Plutus scripts. -/
def providedPlutus (crypto : Crypto) (tx : Transaction) (utxo : UtxoLookup) (h : Hash28) : Bool :=
  decide (h ∈ collectPlutusScriptHashes crypto tx utxo)

theorem checkScriptRedeemers_eq_nil :
    checkScriptRedeemers crypto tx utxo (plutusScriptVersionMap crypto tx utxo) = [] ↔
      ∀ tag ≠ RedeemerTag.guarding, ∀ (i : Nat) (h : Hash28),
        (phase1Scripts (providedPlutus crypto tx utxo) tx utxo tag)[i]? = some (some h) →
          ∃ r ∈ tx.witnessSet.redeemers, r.tag = tag ∧ r.index = BitVec.ofNat 32 i := by
  simp only [checkScriptRedeemers, isPlutus_versionMap, append_eq_nil_iff, missingRedeemers_eq_nil]
  constructor
  · rintro ⟨⟨⟨⟨⟨hspend, hreward⟩, hmint⟩, hcert⟩, hvote⟩, hpropose⟩ tag hne
    cases tag with
    | spend => exact hspend
    | mint => exact hmint
    | cert => exact hcert
    | reward => exact hreward
    | vote => exact hvote
    | propose => exact hpropose
    | guarding => exact absurd rfl hne
  · intro hall
    exact ⟨⟨⟨⟨⟨hall .spend nofun, hall .reward nofun⟩, hall .mint nofun⟩, hall .cert nofun⟩,
      hall .vote nofun⟩, hall .propose nofun⟩

theorem checkExtraRedeemers_eq_nil :
    checkExtraRedeemers crypto tx utxo (plutusScriptVersionMap crypto tx utxo) = [] ↔
      ∀ r ∈ tx.witnessSet.redeemers, ∃ (i : Nat) (h : Hash28),
        (phase1Scripts (providedPlutus crypto tx utxo) tx utxo r.tag)[i]? = some (some h) ∧
          r.index = BitVec.ofNat 32 i := by
  have hvalid : ∀ tag k,
      k ∈ validPurposes crypto tx utxo (plutusScriptVersionMap crypto tx utxo) tag ↔
        ∃ i h, (phase1Scripts (providedPlutus crypto tx utxo) tx utxo tag)[i]? = some (some h) ∧
            k = BitVec.ofNat 32 i := by
    intro tag k
    simp only [validPurposes, isPlutus_versionMap, ite_self, mem_map]
    constructor
    · rintro ⟨⟨k, h⟩, hmem, rfl⟩
      obtain ⟨i, hi, hk⟩ := mem_scriptPositions.1 hmem
      exact ⟨i, h, hi, hk⟩
    · rintro ⟨i, h, hi, hk⟩
      exact ⟨(k, h), mem_scriptPositions.2 ⟨i, hi, hk⟩, rfl⟩
  simp only [checkExtraRedeemers, filterMap_eq_nil_iff, ite_eq_left_iff, reduceCtorEq,
    imp_false, not_not, hvalid]

end Passing

end Dugite
