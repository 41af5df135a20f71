import Dugite.Validation.NativeScripts
import Dugite.Validation.RedeemerOrder

/-!
# Do the two phases mean the same item?

Phase 1 looks a redeemer up in `phase1Scripts`, phase 2 in `phase2Scripts`. The lists agree on
policies, certificates, proposals and guards. They differ where an input is listed twice (phase 2
drops the repetition, and everything after it moves) and where withdrawals or voters mix keys and
scripts (the maps have keys first, the ledger has scripts first). `redeemers_agree_iff` says which
transactions the two phases agree on.
-/

namespace Dugite

open Checks Positions List Crypto

section Positions
variable (crypto : Crypto) (T : PlutusTranslation) (tx : Transaction) (utxo : UtxoLookup)

/-- The scripts by the positions of phase 2. Withdrawals that cannot be ordered have none. -/
def phase2Scripts : RedeemerTag → List (Option Hash28)
  | .spend => (sortInputs tx.body.inputs).map (inputScript utxo)
  | .mint => tx.body.mint.keys.map some
  | .cert => tx.body.certificates.map certScriptHash
  | .reward =>
    match ledgerOrderedWithdrawals T tx.body.withdrawals with
    | .ok ordered => ordered.map (·.1.scriptHash)
    | .error _ => []
  | .vote => (ledgerOrderedVoters tx.body.votingProcedures).map (·.scriptHash)
  | .propose => tx.body.proposalProcedures.map proposalScriptHash
  | .guarding => tx.body.guards.map (·.scriptHash)

/-- What a script of this language is run on: the datum of a spent output, or the Plutus form of a
certificate or proposal. -/
def Prepared (tag : RedeemerTag) (idx : Nat) (h : Hash28) (language : ScriptLanguage) : Prop :=
  match tag with
  | .spend => ∃ input out datum, (sortInputs tx.body.inputs)[idx]? = some input ∧
      utxo input = some out ∧ spendDatum crypto T tx out h language = .ok datum
  | .cert => ∃ cert data, tx.body.certificates[idx]? = some cert ∧
      certificateFor T cert language = .ok data
  | .propose => ∃ proposal data, tx.body.proposalProcedures[idx]? = some proposal ∧
      T.proposalToPlutus proposal = .ok data
  | _ => True

/-- What resolution still needs once the script hash is known: the script as a Plutus script, and
what it is run on. -/
def Runnable (tag : RedeemerTag) (idx : Nat) (h : Hash28) : Prop :=
  ∃ script, findScriptBytes crypto T tx (resolvePhase2UtxoPairs tx utxo) h = .ok script ∧
    Prepared crypto T tx utxo tag idx h script.2

/-- Phase 2 resolves a redeemer, and to this script. -/
def ResolvesTo (r : Redeemer) (h : Hash28) : Prop :=
  ∃ res, resolveRedeemer crypto T tx (resolvePhase2UtxoPairs tx utxo) r = .ok res ∧
    res.scriptHash = h

end Positions

/-! ## What resolution finds -/

variable {r : Redeemer}

section Resolution
variable {crypto : Crypto} {T : PlutusTranslation} {tx : Transaction} {utxo : UtxoLookup}
  {input : TransactionInput} {h : Hash28}

/-- An input of the transaction is among the resolved outputs when it is in the set. -/
theorem find?_resolved {L : List TransactionInput} (h : input ∈ L) :
    (L.filterMap fun i => (utxo i).map (i, ·)).find? (fun e => e.1 = input) =
      (utxo input).map (input, ·) := by
  induction L with
  | nil => cases h
  | cons i L ih =>
    by_cases hi : i = input
    · subst hi
      cases hu : utxo i with
      | some out => simp [hu]
      | none =>
      simp only [filterMap_cons, hu, Option.map_none, find?_eq_none,
        mem_filterMap, Option.map_eq_some_iff, decide_eq_true_eq]
      rintro e ⟨j, -, out, hj, rfl⟩ rfl
      rw [hu] at hj
      cases hj
    · have hmem : input ∈ L := (mem_cons.1 h).resolve_left (Ne.symm hi)
      cases hu : utxo i with
      | some out => simp [hu, hi, ih hmem]
      | none => simp [hu, ih hmem]

theorem mem_sortInputs {inputs : List TransactionInput} :
    input ∈ sortInputs inputs ↔ input ∈ inputs := by
  rw [sortInputs, mem_dedupAdjacent, (perm_insertionSort _ inputs).mem_iff]

theorem find?_resolvePhase2UtxoPairs (h : input ∈ tx.body.inputs) :
    (resolvePhase2UtxoPairs tx utxo).find? (fun e => e.1 = input) = (utxo input).map (input, ·) :=
  find?_resolved (mem_append_left _ (mem_append_left _ h))

theorem resolveSpend_iff (htag : r.tag = .spend) : ResolvesTo crypto T tx utxo r h ↔
      (phase2Scripts T tx utxo .spend)[r.index.toNat]? = some (some h) ∧
        Runnable crypto T tx utxo .spend r.index.toNat h := by
  simp only [ResolvesTo, resolveRedeemer, htag, resolveSpend, bind_eq_ok, okOr_eq_ok,
    phase2Scripts, getElem?_map_eq_some, Runnable, Prepared, pure, Except.pure, Except.ok.injEq]
  constructor
  · rintro ⟨res, ⟨input, hinput, entry, hentry, h, hscript, script, hfind, datum, hdatum, rfl⟩, rfl⟩
    rw [find?_resolvePhase2UtxoPairs (mem_sortInputs.1 (mem_of_getElem? hinput))] at hentry
    obtain ⟨out, hout, rfl⟩ := Option.map_eq_some_iff.1 hentry
    refine ⟨⟨input, hinput, ?_⟩, script, hfind, input, out, datum, hinput, hout, hdatum⟩
    rw [inputScript, hout]
    exact hscript
  · rintro ⟨⟨input, hinput, hscript⟩, script, hfind, input', out, datum, hinput', hout, hdatum⟩
    obtain rfl : input = input' := Option.some.inj (hinput.symm.trans hinput')
    rw [inputScript, hout] at hscript
    refine ⟨_, ⟨input, hinput, (input, out), ?_, h, hscript, script, hfind, datum, hdatum, rfl⟩, rfl⟩
    rw [find?_resolvePhase2UtxoPairs (mem_sortInputs.1 (mem_of_getElem? hinput)), hout]
    rfl

/-- Every resolver finds the script of the item at its position and then prepares the run. -/
theorem resolvesTo_iff : ResolvesTo crypto T tx utxo r h ↔
      (phase2Scripts T tx utxo r.tag)[r.index.toNat]? = some (some h) ∧
        Runnable crypto T tx utxo r.tag r.index.toNat h := by
  cases htag : r.tag
  case spend => exact resolveSpend_iff htag
  all_goals
    simp only [ResolvesTo, resolveRedeemer, htag, resolveMint, resolveCert, resolveReward,
      resolveVote, resolvePropose, resolveGuarding, bind_eq_ok, okOr_eq_ok, phase2Scripts,
      getElem?_map_eq_some, Runnable, Prepared, pure, Except.pure, Except.ok.injEq]
  case mint =>
    constructor
    · rintro ⟨res, ⟨policy, hpolicy, script, hfind, rfl⟩, rfl⟩
      exact ⟨⟨_, hpolicy, rfl⟩, script, hfind, trivial⟩
    · rintro ⟨⟨policy, hpolicy, hp⟩, script, hfind, -⟩
      cases hp
      exact ⟨_, ⟨_, hpolicy, script, hfind, rfl⟩, rfl⟩
  case cert | propose =>
    constructor
    · rintro ⟨res, ⟨item, hitem, h, hscript, script, hfind, data, hdata, rfl⟩, rfl⟩
      exact ⟨⟨item, hitem, hscript⟩, script, hfind, item, data, hitem, hdata⟩
    · rintro ⟨⟨item, hitem, hscript⟩, script, hfind, item', data, hitem', hdata⟩
      obtain rfl : item = item' := Option.some.inj (hitem.symm.trans hitem')
      exact ⟨_, ⟨item, hitem, h, hscript, script, hfind, data, hdata, rfl⟩, rfl⟩
  case reward =>
    cases hordered : ledgerOrderedWithdrawals T tx.body.withdrawals with
    | error e => simp
    | ok ordered =>
    simp only [Except.ok.injEq, getElem?_map_eq_some]
    constructor
    · rintro ⟨res, ⟨ordered, rfl, entry, hentry, h, hscript, script, hfind, rfl⟩, rfl⟩
      exact ⟨⟨entry, hentry, hscript⟩, script, hfind, trivial⟩
    · rintro ⟨⟨entry, hentry, hscript⟩, script, hfind, -⟩
      exact ⟨_, ⟨ordered, rfl, entry, hentry, h, hscript, script, hfind, rfl⟩, rfl⟩
  case vote | guarding =>
    constructor
    · rintro ⟨res, ⟨item, hitem, h, hscript, script, hfind, rfl⟩, rfl⟩
      exact ⟨⟨item, hitem, hscript⟩, script, hfind, trivial⟩
    · rintro ⟨⟨item, hitem, hscript⟩, script, hfind, -⟩
      exact ⟨_, ⟨item, hitem, h, hscript, script, hfind, rfl⟩, rfl⟩

end Resolution

/-! ## Agreement -/

section Agreement
variable (crypto : Crypto) (T : PlutusTranslation) (tx : Transaction) (utxo : UtxoLookup)

/-- The scripts by the positions of phase 1. -/
abbrev plutusPositions : RedeemerTag → List (Option Hash28) :=
  phase1Scripts (providedPlutus crypto tx utxo) tx utxo

/-- Phase 1 takes a redeemer to be for this script. -/
def Associated (r : Redeemer) (h : Hash28) : Prop :=
  ∃ i : Nat, (plutusPositions crypto tx utxo r.tag)[i]? = some (some h) ∧
    r.index = BitVec.ofNat 32 i

/-- Both checks of phase 1 pass. -/
def PassesRedeemerChecks : Prop :=
  checkScriptRedeemers crypto tx utxo (plutusScriptVersionMap crypto tx utxo) = [] ∧
    checkExtraRedeemers crypto tx utxo (plutusScriptVersionMap crypto tx utxo) = []

/-- The positions of every collection are `u32`s. -/
def Indexed : Prop := ∀ tag, (plutusPositions crypto tx utxo tag).length ≤ 2 ^ 32

/-- The decoders keep one redeemer for a pointer. -/
def DistinctPointers : Prop := (tx.witnessSet.redeemers.map fun r => (r.tag, r.index)).Nodup

/-- The scripts that must run, by the positions of phase 2: those of `phase2Scripts`, except that a
registration without a deposit is open to anyone. -/
def lockingScripts : RedeemerTag → List (Option Hash28)
  | .cert => tx.body.certificates.map certificateScript
  | tag => phase2Scripts T tx utxo tag

/-- Each redeemer is resolved, to the script that phase 1 took it to be for, and each item that a
Plutus script locks has one redeemer. -/
structure RedeemersAgree : Prop where
  agree : ∀ r ∈ tx.witnessSet.redeemers, ∀ h, Associated crypto tx utxo r h →
    ResolvesTo crypto T tx utxo r h
  resolves : ∀ r ∈ tx.witnessSet.redeemers, ∃ h, ResolvesTo crypto T tx utxo r h
  evaluated : ∀ (tag : RedeemerTag) (i : Nat) (h : Hash28),
    (lockingScripts T tx utxo tag)[i]? = some (some h) → providedPlutus crypto tx utxo h = true →
      tx.witnessSet.redeemers.countP (fun r => r.tag = tag ∧ r.index.toNat = i) = 1

/-- The datum of a spent output is there: on the output, or in the witness set under the hash that
the output carries; there by its wire bytes, or, where these are not known, by its own encoding, if
what stands before it can be encoded. -/
def DatumPresent (out : TransactionOutput) : Prop :=
  match out.datum with
  | .inlineDatum _ _ => True
  | .datumHash hash =>
    match (tx.witnessSet.rawPlutusDataCbor.bind T.plutusDataElementSpans).filter
        fun spans => spans.length = tx.witnessSet.plutusData.length with
    | some spans => ∃ span ∈ spans, crypto.blake2b256 span = hash
    | none => ∃ before datum after cbor, tx.witnessSet.plutusData = before ++ datum :: after ∧
        (∀ other ∈ before, (T.toCbor other).isOk) ∧ T.toCbor datum = .ok cbor ∧
          crypto.blake2b256 cbor = hash
  | .none => False

/-- The condition on the transaction. -/
structure Aligned : Prop where
  /-- No input that comes before a Plutus-locked one, or is it, is listed twice. -/
  spend : ∀ input ∈ tx.body.inputs, ∀ out h, utxo input = some out →
    out.address.scriptHash = some h → providedPlutus crypto tx utxo h = true →
      ∀ other ∈ tx.body.inputs, other ≤ input → tx.body.inputs.count other = 1
  /-- With a Plutus withdrawal, all withdrawals are from reward addresses of scripts. -/
  reward : (∃ account ∈ tx.body.withdrawals.keys, ∃ h, withdrawalScript account = some h ∧
      providedPlutus crypto tx utxo h = true) →
    ∀ account ∈ tx.body.withdrawals.keys, ∃ net h,
      Address.fromBytes account = .ok (.reward net (.script h))
  /-- In the role of a Plutus voter no key votes. -/
  vote : ∀ voter ∈ tx.body.votingProcedures.keys, ∀ h, voter.scriptHash = some h →
    providedPlutus crypto tx utxo h = true → ∀ other ∈ tx.body.votingProcedures.keys,
      other.ledgerRank = voter.ledgerRank → other.scriptHash.isSome
  /-- An output that a script of one of the first two languages locks is spent with its datum. -/
  datum : ∀ input ∈ tx.body.inputs, ∀ out h language, utxo input = some out →
    out.address.scriptHash = some h → providedPlutus crypto tx utxo h = true →
      HashedAs crypto T tx utxo h language → language = .plutusV1 ∨ language = .plutusV2 →
        DatumPresent crypto T tx out
  /-- The certificates of Plutus scripts have a form in the script's language. -/
  certificates : ∀ cert ∈ tx.body.certificates, ∀ h language, certificateScript cert = some h →
    providedPlutus crypto tx utxo h = true → HashedAs crypto T tx utxo h language →
      ∃ data, certificateFor T cert language = .ok data
  /-- The policy of a proposal is a Plutus script that comes with the transaction, and the proposal
  has a Plutus form. -/
  proposals : ∀ proposal ∈ tx.body.proposalProcedures, ∀ h,
    govactionPolicyHash proposal.govAction = some h →
      (∃ language, HashedAs crypto T tx utxo h language) ∧
        ∃ data, T.proposalToPlutus proposal = .ok data
  /-- A Plutus guard has a redeemer, and a guard with a redeemer is a Plutus script that comes with
  the transaction. -/
  guards : ∀ (i : Nat) (h : Hash28), tx.body.guards[i]? = some (.script h) →
    (providedPlutus crypto tx utxo h = true →
      ∃ r ∈ tx.witnessSet.redeemers, r.tag = .guarding ∧ r.index.toNat = i) ∧
    ((∃ r ∈ tx.witnessSet.redeemers, r.tag = .guarding ∧ r.index.toNat = i) →
      ∃ language, HashedAs crypto T tx utxo h language)

end Agreement

section Proofs
variable {crypto : Crypto} {T : PlutusTranslation} {tx : Transaction} {utxo : UtxoLookup}

/-! ### Positions of one tag -/

variable {h : Hash28} {tag : RedeemerTag} {plutus : Hash28 → Bool} {i : Nat}

theorem onlyPlutus_eq_some {s : Option Hash28} :
    onlyPlutus plutus s = some h ↔ s = some h ∧ plutus h = true := by
  simp only [onlyPlutus, Option.filter_eq_some_iff]

/-- What stands at a position that is marked with a Plutus script. -/
theorem getElem?_onlyPlutus {α : Type} {l : List α} {f : α → Option Hash28} :
    (l.map fun a => onlyPlutus plutus (f a))[i]? = some (some h) ↔
      ∃ a, l[i]? = some a ∧ f a = some h ∧ plutus h = true := by
  simp only [getElem?_map_eq_some, onlyPlutus_eq_some]

/-- Filtered marks are in place when the marks are. -/
theorem keeps_map_onlyPlutus {α α' : Type} {l : List α} {l' : List α'}
    {f : α → Option Hash28} {f' : α' → Option Hash28} :
    Keeps (l.map fun a => onlyPlutus plutus (f a)) (l'.map f') ↔
      Keeps (l.map fun a => onlyPlutus plutus (f a))
        (l'.map fun a => onlyPlutus plutus (f' a)) := by
  constructor
  · intro hkeeps i h hi
    obtain ⟨a, -, -, hplutus⟩ := getElem?_onlyPlutus.1 hi
    obtain ⟨a', ha', hf'⟩ := getElem?_map_eq_some.1 (hkeeps i h hi)
    exact getElem?_onlyPlutus.2 ⟨a', ha', hf', hplutus⟩
  · intro hkeeps i h hi
    obtain ⟨a', ha', hf', -⟩ := getElem?_onlyPlutus.1 (hkeeps i h hi)
    exact getElem?_map_eq_some.2 ⟨a', ha', hf'⟩

/-- Phase 1 and phase 2 mean the same script at every position that phase 1 asks about. -/
abbrev SamePlaces (crypto : Crypto) (T : PlutusTranslation) (tx : Transaction) (utxo : UtxoLookup)
    (tag : RedeemerTag) : Prop :=
  Keeps (plutusPositions crypto tx utxo tag) (phase2Scripts T tx utxo tag)

theorem sortedInputs_pairwise (tx : Transaction) : (sortedInputs tx).Pairwise (· ≤ ·) :=
  pairwise_insertionSort (· ≤ ·) tx.body.inputs

theorem mem_sortedInputs {input : TransactionInput} :
    input ∈ sortedInputs tx ↔ input ∈ tx.body.inputs :=
  (perm_insertionSort (· ≤ ·) tx.body.inputs).mem_iff

/-- What the sorted inputs repeat is what the inputs repeat. -/
theorem duplicate_sortedInputs {input : TransactionInput} (h : input ∈ tx.body.inputs) :
    ¬(sortedInputs tx).Duplicate input ↔ tx.body.inputs.count input = 1 := by
  have hpos := count_pos_iff.2 h
  rw [duplicate_iff_two_le_count, sortedInputs,
    (perm_insertionSort (· ≤ ·) tx.body.inputs).count_eq input]
  omega

theorem spend_iff_count :
    (∀ (i : Nat) (h : Hash28), (plutusPositions crypto tx utxo .spend)[i]? = some (some h) →
        ((sortedInputs tx).take (i + 1)).Nodup) ↔
      ∀ input ∈ tx.body.inputs, ∀ out h, utxo input = some out →
        out.address.scriptHash = some h → providedPlutus crypto tx utxo h = true →
          ∀ other ∈ tx.body.inputs, other ≤ input → tx.body.inputs.count other = 1 := by
  rw [plutusPositions, phase1Scripts, nodup_take_iff_duplicate (sortedInputs_pairwise tx)]
  constructor
  · intro hall input hinput out script hout hscript hplutus other hother hle
    refine (duplicate_sortedInputs hother).1
      (hall input (mem_sortedInputs.2 hinput) ?_ other hle)
    rw [inputScript, hout, Option.bind_some, onlyPlutus_eq_some.2 ⟨hscript, hplutus⟩]
    rfl
  · intro hall input hinput hsome other hle hdup
    obtain ⟨script, hscript⟩ := Option.isSome_iff_exists.1 hsome
    obtain ⟨hscript, hplutus⟩ := onlyPlutus_eq_some.1 hscript
    obtain ⟨out, hout, hscript⟩ := Option.bind_eq_some_iff.1 hscript
    have hother := mem_sortedInputs.1 hdup.mem
    exact (duplicate_sortedInputs hother).2
      (hall input (mem_sortedInputs.1 hinput) out script hout hscript hplutus other hother hle) hdup

theorem samePlaces_spend_iff : SamePlaces crypto T tx utxo .spend ↔
      ∀ (i : Nat) (h : Hash28), (plutusPositions crypto tx utxo .spend)[i]? = some (some h) →
        ((sortedInputs tx).take (i + 1)).Nodup := by
  rw [SamePlaces, plutusPositions, phase1Scripts, phase2Scripts, keeps_map_onlyPlutus]
  constructor
  · intro hkeeps i h hi
    exact nodup_take_of_keeps (sortedInputs_pairwise tx) hkeeps hi
  · intro hnodup i h hi
    obtain ⟨x, hx, hmark⟩ := getElem?_map_eq_some.1 hi
    exact getElem?_map_eq_some.2 ⟨x, (getElem?_dedupAdjacent (hnodup i h hi)).trans hx, hmark⟩

theorem samePlaces_vote_iff :
    SamePlaces crypto T tx utxo .vote ↔ plutusPositions crypto tx utxo .vote =
      (ledgerOrderedVoters tx.body.votingProcedures).map fun v =>
        onlyPlutus (providedPlutus crypto tx utxo) v.scriptHash := by
  rw [SamePlaces, plutusPositions, phase1Scripts, phase2Scripts, keeps_map_onlyPlutus]
  constructor
  · intro hkeeps
    refine eq_of_perm_of_keeps (List.Perm.map _ ?_) hkeeps
    exact (perm_insertionSort _ tx.body.votingProcedures.keys).symm
  · intro heq
    rw [heq]
    exact fun i h hi => hi

theorem plutusPositions_reward_perm {ordered : List (Credential × Nat)}
    (h : ledgerOrderedWithdrawals T tx.body.withdrawals = .ok ordered) :
    (plutusPositions crypto tx utxo .reward).Perm
      (ordered.map fun e => onlyPlutus (providedPlutus crypto tx utxo) e.1.scriptHash) := by
  obtain ⟨out, hout, h⟩ := bind_eq_ok.1 h
  cases h
  have hscripts : plutusPositions crypto tx utxo .reward =
      out.map fun e => onlyPlutus (providedPlutus crypto tx utxo) e.1.scriptHash := by
    have hmap := congrArg (List.map (onlyPlutus (providedPlutus crypto tx utxo)))
      (withdrawalStakes_scripts hout)
    rw [map_map, map_map] at hmap
    rw [plutusPositions, phase1Scripts, SortedMap.keys, map_map]
    exact hmap
  rw [hscripts]
  exact ((perm_insertionSort _ out).symm).map _

theorem samePlaces_reward_iff : SamePlaces crypto T tx utxo .reward ↔
      ((∃ h, some h ∈ plutusPositions crypto tx utxo .reward) →
        ∃ ordered, ledgerOrderedWithdrawals T tx.body.withdrawals = .ok ordered ∧
          plutusPositions crypto tx utxo .reward =
            ordered.map fun e => onlyPlutus (providedPlutus crypto tx utxo) e.1.scriptHash) := by
  rw [SamePlaces, phase2Scripts]
  constructor
  · rintro hkeeps ⟨h, hmem⟩
    obtain ⟨i, hi⟩ := mem_iff_getElem?.1 hmem
    have hi' := hkeeps i h hi
    cases hordered : ledgerOrderedWithdrawals T tx.body.withdrawals with
    | error e =>
      rw [hordered] at hi'
      cases hi'
    | ok ordered =>
      rw [hordered] at hkeeps
      exact ⟨ordered, rfl,
        eq_of_perm_of_keeps (plutusPositions_reward_perm hordered) (keeps_map_onlyPlutus.1 hkeeps)⟩
  · intro hcond i h hi
    obtain ⟨ordered, hordered, heq⟩ := hcond ⟨h, mem_of_getElem? hi⟩
    rw [hordered]
    exact keeps_map_onlyPlutus.2 (by rw [← heq]; exact fun i h hi => hi) i h hi

theorem exists_plutusPositions_reward_iff :
    (∃ h, some h ∈ plutusPositions crypto tx utxo .reward) ↔
      ∃ account ∈ tx.body.withdrawals.keys, ∃ h, withdrawalScript account = some h ∧
        providedPlutus crypto tx utxo h = true := by
  simp only [plutusPositions, phase1Scripts, mem_map, onlyPlutus_eq_some]
  exact ⟨fun ⟨h, account, hmem, hh⟩ => ⟨account, hmem, h, hh⟩,
    fun ⟨account, hmem, h, hh⟩ => ⟨h, account, hmem, hh⟩⟩

theorem certScriptHash_of_certificateScript {cert : Certificate}
    (hcert : certificateScript cert = some h) : certScriptHash cert = some h := by
  cases cert <;> first | exact hcert | cases hcert

theorem proposalScriptHash_eq (proposal : ProposalProcedure) :
    proposalScriptHash proposal = govactionPolicyHash proposal.govAction := by
  obtain ⟨deposit, returnAddr, govAction, anchor⟩ := proposal
  cases govAction <;> rfl

/-- The other four collections are walked alike. -/
theorem samePlaces_of_listed (hspend : tag ≠ .spend) (hreward : tag ≠ .reward)
    (hvote : tag ≠ .vote) : SamePlaces crypto T tx utxo tag := by
  intro i h hi
  cases tag with
  | spend => exact absurd rfl hspend
  | reward => exact absurd rfl hreward
  | vote => exact absurd rfl hvote
  | mint =>
    obtain ⟨policy, hpolicy, hp, -⟩ := getElem?_onlyPlutus.1 hi
    exact getElem?_map_eq_some.2 ⟨policy, hpolicy, hp⟩
  | cert =>
    obtain ⟨cert, hcert, hc, -⟩ := getElem?_onlyPlutus.1 hi
    exact getElem?_map_eq_some.2 ⟨cert, hcert, certScriptHash_of_certificateScript hc⟩
  | propose =>
    obtain ⟨proposal, hproposal, hp⟩ := getElem?_map_eq_some.1 hi
    exact getElem?_map_eq_some.2
      ⟨proposal, hproposal, (proposalScriptHash_eq proposal).trans hp⟩
  | guarding => exact hi

/-- Where the positions agree, phase 1 asks about every Plutus-locked item but a guard. -/
theorem plutusPositions_of_locking (hne : tag ≠ .guarding) (hsame : SamePlaces crypto T tx utxo tag)
    (hi : (lockingScripts T tx utxo tag)[i]? = some (some h))
    (hplutus : providedPlutus crypto tx utxo h = true) :
    (plutusPositions crypto tx utxo tag)[i]? = some (some h) := by
  have hfilter : ∀ {α} {l : List α} {f : α → Option Hash28}, (l.map f)[i]? = some (some h) →
        (l.map fun a => onlyPlutus (providedPlutus crypto tx utxo) (f a))[i]? = some (some h) := by
    intro α l f hi
    obtain ⟨a, ha, hf⟩ := getElem?_map_eq_some.1 hi
    exact getElem?_onlyPlutus.2 ⟨a, ha, hf, hplutus⟩
  cases tag with
  | spend =>
    exact keeps_of_dedupAdjacent (sortedInputs_pairwise tx) (samePlaces_spend_iff.1 hsame) i h
      (hfilter hi)
  | mint | cert => exact hfilter hi
  | reward =>
    change (phase2Scripts T tx utxo .reward)[i]? = some (some h) at hi
    rw [phase2Scripts] at hi
    cases hordered : ledgerOrderedWithdrawals T tx.body.withdrawals with
    | error e =>
      rw [hordered] at hi
      cases hi
    | ok ordered =>
    rw [hordered] at hi
    have hmem := (plutusPositions_reward_perm hordered).mem_iff.2
      (mem_of_getElem? (hfilter hi))
    obtain ⟨ordered', hordered', heq⟩ := samePlaces_reward_iff.1 hsame ⟨h, hmem⟩
    cases hordered.symm.trans hordered'
    rw [heq]
    exact hfilter hi
  | vote =>
    rw [samePlaces_vote_iff.1 hsame]
    exact hfilter hi
  | propose =>
    obtain ⟨proposal, hproposal, hp⟩ := getElem?_map_eq_some.1 hi
    exact getElem?_map_eq_some.2
      ⟨proposal, hproposal, (proposalScriptHash_eq proposal).symm.trans hp⟩
  | guarding => exact absurd rfl hne

/-! ### What a script is run on -/

theorem exists_findDatum_iff {hash : Hash32} (data : List PlutusData) :
    (∃ datum, findDatum crypto T hash data = .ok datum) ↔
      ∃ before datum after cbor, data = before ++ datum :: after ∧
        (∀ other ∈ before, (T.toCbor other).isOk) ∧ T.toCbor datum = .ok cbor ∧
          crypto.blake2b256 cbor = hash := by
  induction data with
  | nil => simp [findDatum]
  | cons d rest ih =>
    cases hd : T.toCbor d with
    | error e =>
      simp only [findDatum, hd, reduceCtorEq, exists_false, false_iff]
      rintro ⟨before, datum, after, cbor, hdata, hbefore, hcbor, -⟩
      obtain ⟨rfl, hcons⟩ | ⟨before, rfl, -⟩ := cons_eq_append_iff.1 hdata
      · obtain ⟨rfl, -⟩ := List.cons.inj hcons
        cases hd.symm.trans hcbor
      · have hok := hbefore d mem_cons_self
        rw [hd] at hok
        cases hok
    | ok cbor =>
    simp only [findDatum, hd]
    by_cases hhash : crypto.blake2b256 cbor = hash
    · rw [if_pos hhash]
      exact iff_of_true ⟨d, rfl⟩ ⟨[], d, rest, cbor, rfl, fun _ h => absurd h not_mem_nil, hd, hhash⟩
    rw [if_neg hhash, ih]
    constructor
    · rintro ⟨before, datum, after, cbor', rfl, hbefore, hfound⟩
      refine ⟨d :: before, datum, after, cbor', rfl, fun other hother => ?_, hfound⟩
      obtain rfl | hother := mem_cons.1 hother
      · rw [hd]
        rfl
      · exact hbefore other hother
    · rintro ⟨before, datum, after, cbor', hdata, hbefore, hcbor, hfound⟩
      obtain ⟨rfl, hcons⟩ | ⟨before, rfl, rfl⟩ := cons_eq_append_iff.1 hdata
      · obtain ⟨rfl, -⟩ := List.cons.inj hcons
        cases hd.symm.trans hcbor
        exact absurd hfound hhash
      · exact ⟨before, datum, after, cbor', rfl,
          fun other hother => hbefore other (mem_cons_of_mem d hother), hcbor, hfound⟩

theorem exists_resolveSpendDatum_iff {out : TransactionOutput} :
    (∃ datum, resolveSpendDatum crypto T tx out h = .ok datum) ↔ DatumPresent crypto T tx out := by
  unfold resolveSpendDatum DatumPresent
  cases out.datum with
  | none => simp
  | inlineDatum data bytes => simp
  | datumHash hash =>
    cases hspans : (tx.witnessSet.rawPlutusDataCbor.bind T.plutusDataElementSpans).filter
        fun spans => spans.length = tx.witnessSet.plutusData.length with
    | some spans =>
      have hlength : spans.length = tx.witnessSet.plutusData.length := by
        simpa using (Option.filter_eq_some_iff.1 hspans).2
      have hfst : (spans.zip tx.witnessSet.plutusData).map Prod.fst = spans :=
        map_fst_zip hlength.le
      simp only [hspans, okOr_eq_ok, Option.map_eq_some_iff]
      constructor
      · rintro ⟨datum, e, he, -⟩
        refine ⟨e.1, ?_, by simpa using find?_some he⟩
        rw [← hfst]
        exact mem_map_of_mem (mem_of_find?_eq_some he)
      · rintro ⟨span, hspan, hhash⟩
        rw [← hfst] at hspan
        obtain ⟨e, he, rfl⟩ := mem_map.1 hspan
        have hsome : ((spans.zip tx.witnessSet.plutusData).find?
            fun e => crypto.blake2b256 e.1 = hash).isSome :=
          find?_isSome.2 ⟨e, he, decide_eq_true hhash⟩
        obtain ⟨found, hfound⟩ := Option.isSome_iff_exists.1 hsome
        exact ⟨found.2, found, hfound, rfl⟩
    | none =>
      simp only [hspans]
      exact exists_findDatum_iff _

/-- A script of the first two languages is run with a datum. -/
theorem exists_spendDatum_iff {out : TransactionOutput} {language : ScriptLanguage} :
    (∃ datum, spendDatum crypto T tx out h language = .ok datum) ↔
      (language = .plutusV1 ∨ language = .plutusV2 → DatumPresent crypto T tx out) := by
  cases language with
  | plutusV1 | plutusV2 =>
    simp only [spendDatum, bind_eq_ok, reduceCtorEq, or_false, false_or, forall_const,
      ← exists_resolveSpendDatum_iff (h := h)]
    exact ⟨fun ⟨_, datum, hdatum, _⟩ => ⟨datum, hdatum⟩,
      fun ⟨datum, hdatum⟩ => ⟨some datum, datum, hdatum, rfl⟩⟩
  | plutusV3 | plutusV4 => simp [spendDatum, pure, Except.pure]

theorem runnable_iff (hideal : IdealHashing crypto T tx utxo) :
    Runnable crypto T tx utxo tag i h ↔ ∃ language, HashedAs crypto T tx utxo h language ∧
      Prepared crypto T tx utxo tag i h language :=
  exists_findScriptBytes_iff hideal

/-! ### Positions as indices -/

theorem Indexed.toNat_ofNat (hindexed : Indexed crypto tx utxo)
    {o : Option Hash28} (hi : (plutusPositions crypto tx utxo tag)[i]? = some o) :
    (BitVec.ofNat 32 i).toNat = i := by
  have hlt := (List.getElem?_eq_some_iff.1 hi).1
  have hle := hindexed tag
  exact Nat.mod_eq_of_lt (by omega)

theorem Indexed.associated_iff (hindexed : Indexed crypto tx utxo) : Associated crypto tx utxo r h ↔
      (plutusPositions crypto tx utxo r.tag)[r.index.toNat]? = some (some h) := by
  constructor
  · rintro ⟨i, hi, hindex⟩
    rw [hindex, hindexed.toNat_ofNat hi]
    exact hi
  · intro hi
    exact ⟨r.index.toNat, hi, by rw [BitVec.ofNat_toNat, BitVec.setWidth_eq]⟩

/-- What phase 1 asks a redeemer for is a Plutus script with what it is run on. -/
theorem prepared_of_agree (hindexed : Indexed crypto tx utxo)
    (hideal : IdealHashing crypto T tx utxo)
    (hagree : RedeemersAgree crypto T tx utxo)
    (hi : (plutusPositions crypto tx utxo tag)[i]? = some (some h))
    (hr : ∃ r ∈ tx.witnessSet.redeemers, r.tag = tag ∧ r.index.toNat = i) :
    ∃ language, HashedAs crypto T tx utxo h language ∧
      Prepared crypto T tx utxo tag i h language := by
  obtain ⟨r, hr, rfl, rfl⟩ := hr
  have hresolves := hagree.agree r hr h (hindexed.associated_iff.2 hi)
  exact (runnable_iff hideal).1 (resolvesTo_iff.1 hresolves).2

section
variable (hpass : PassesRedeemerChecks crypto tx utxo) (hindexed : Indexed crypto tx utxo)
include hpass hindexed

/-- Every position that phase 1 asks about has a redeemer. -/
theorem PassesRedeemerChecks.redeemer (hne : tag ≠ .guarding)
    (hi : (plutusPositions crypto tx utxo tag)[i]? = some (some h)) :
    ∃ r ∈ tx.witnessSet.redeemers, r.tag = tag ∧ r.index.toNat = i := by
  obtain ⟨r, hr, htag, hindex⟩ := checkScriptRedeemers_eq_nil.1 hpass.1 tag hne i h hi
  exact ⟨r, hr, htag, by rw [hindex, hindexed.toNat_ofNat hi]⟩

/-! ### The main result -/

theorem samePlaces_of_agree (hagree : RedeemersAgree crypto T tx utxo)
    (hne : tag ≠ .guarding) : SamePlaces crypto T tx utxo tag := by
  intro i h hi
  obtain ⟨r, hr, rfl, rfl⟩ := hpass.redeemer hindexed hne hi
  exact (resolvesTo_iff.1 (hagree.agree r hr h (hindexed.associated_iff.2 hi))).1

theorem aligned_of_agree (hnet : OneNetwork tx.body.withdrawals)
    (hideal : IdealHashing crypto T tx utxo) (hagree : RedeemersAgree crypto T tx utxo) :
    Aligned crypto T tx utxo := by
  have hsame : ∀ {tag}, tag ≠ .guarding → SamePlaces crypto T tx utxo tag :=
    samePlaces_of_agree hpass hindexed hagree
  have hprepared : ∀ {tag i h}, (plutusPositions crypto tx utxo tag)[i]? = some (some h) →
      tag ≠ .guarding → ∃ language, HashedAs crypto T tx utxo h language ∧
        Prepared crypto T tx utxo tag i h language := fun hi hne =>
    prepared_of_agree hindexed hideal hagree hi (hpass.redeemer hindexed hne hi)
  refine ⟨spend_iff_count.1 (samePlaces_spend_iff.1 (hsame nofun)), fun hsome => ?_,
    ?_, ?_, ?_, ?_, ?_⟩
  · have hplutus := exists_plutusPositions_reward_iff.2 hsome
    exact (withdrawals_inPlace_iff hnet hplutus).1 (samePlaces_reward_iff.1 (hsame nofun) hplutus)
  · intro voter hvoter h hscript hplutus
    refine (voters_inPlace_iff _ _).1 (samePlaces_vote_iff.1 (hsame nofun)) voter hvoter ?_
    rw [onlyPlutus_eq_some.2 ⟨hscript, hplutus⟩]
    rfl
  · intro input hinput out h language hout hscript hplutus hhashed hold
    obtain ⟨i, hi⟩ := mem_iff_getElem?.1 (mem_sortedInputs.2 hinput)
    have hposition : (plutusPositions crypto tx utxo .spend)[i]? = some (some h) := by
      refine getElem?_onlyPlutus.2 ⟨input, hi, ?_, hplutus⟩
      rw [inputScript, hout]
      exact hscript
    obtain ⟨language', hhashed', input', out', datum, hi', hout', hdatum⟩ :=
      hprepared hposition nofun
    -- Phase 2 has the same input there.
    have hnodup := samePlaces_spend_iff.1 (hsame nofun) i h hposition
    cases hi'.symm.trans ((getElem?_dedupAdjacent hnodup).trans hi)
    cases hout.symm.trans hout'
    obtain rfl := hhashed.unique hideal hhashed'
    exact exists_spendDatum_iff.1 ⟨datum, hdatum⟩ hold
  · intro cert hcert h language hscript hplutus hhashed
    obtain ⟨i, hi⟩ := mem_iff_getElem?.1 hcert
    have hposition : (plutusPositions crypto tx utxo .cert)[i]? = some (some h) :=
      getElem?_onlyPlutus.2 ⟨cert, hi, hscript, hplutus⟩
    obtain ⟨language', hhashed', cert', data, hi', hdata⟩ := hprepared hposition nofun
    cases hi.symm.trans hi'
    obtain rfl := hhashed.unique hideal hhashed'
    exact ⟨data, hdata⟩
  · intro proposal hproposal h hpolicy
    obtain ⟨i, hi⟩ := mem_iff_getElem?.1 hproposal
    have hposition : (plutusPositions crypto tx utxo .propose)[i]? = some (some h) :=
      getElem?_map_eq_some.2 ⟨proposal, hi, hpolicy⟩
    obtain ⟨language, hhashed, proposal', data, hi', hdata⟩ := hprepared hposition nofun
    cases hi.symm.trans hi'
    exact ⟨⟨language, hhashed⟩, data, hdata⟩
  · intro i h hi
    have hposition : (plutusPositions crypto tx utxo .guarding)[i]? = some (some h) :=
      getElem?_map_eq_some.2 ⟨_, hi, rfl⟩
    refine ⟨fun hplutus => ?_, fun hr => ?_⟩
    · have hone := hagree.evaluated .guarding i h hposition hplutus
      obtain ⟨r, hr, hpointer⟩ := countP_pos_iff.1 (hone.symm ▸ Nat.one_pos)
      exact ⟨r, hr, of_decide_eq_true hpointer⟩
    · obtain ⟨language, hhashed, -⟩ := prepared_of_agree hindexed hideal hagree hposition hr
      exact ⟨language, hhashed⟩

end

theorem Aligned.samePlaces (haligned : Aligned crypto T tx utxo)
    (hnet : OneNetwork tx.body.withdrawals) (tag : RedeemerTag) :
    SamePlaces crypto T tx utxo tag := by
  cases tag with
  | spend => exact samePlaces_spend_iff.2 (spend_iff_count.2 haligned.spend)
  | reward =>
    refine samePlaces_reward_iff.2 fun hplutus => (withdrawals_inPlace_iff hnet hplutus).2 ?_
    exact haligned.reward (exists_plutusPositions_reward_iff.1 hplutus)
  | vote =>
    refine samePlaces_vote_iff.2 ((voters_inPlace_iff _ _).2 fun voter hvoter hsome => ?_)
    obtain ⟨h, hsome⟩ := Option.isSome_iff_exists.1 hsome
    obtain ⟨hscript, hplutus⟩ := onlyPlutus_eq_some.1 hsome
    exact haligned.vote voter hvoter h hscript hplutus
  | mint | cert | propose | guarding => exact samePlaces_of_listed nofun nofun nofun

/-- The script of a redeemer that phase 1 accepts is a Plutus script with what it is run on. -/
theorem Aligned.prepared (haligned : Aligned crypto T tx utxo)
    (hi : (plutusPositions crypto tx utxo tag)[i]? = some (some h))
    (hr : ∃ r ∈ tx.witnessSet.redeemers, r.tag = tag ∧ r.index.toNat = i) :
    ∃ language, HashedAs crypto T tx utxo h language ∧
      Prepared crypto T tx utxo tag i h language := by
  cases tag with
  | spend =>
    obtain ⟨input, hinput, hscript, hplutus⟩ := getElem?_onlyPlutus.1 hi
    obtain ⟨language, hhashed⟩ := exists_hashedAs T hplutus
    obtain ⟨out, hout, hscript⟩ := Option.bind_eq_some_iff.1 hscript
    obtain ⟨datum, hdatum⟩ := exists_spendDatum_iff.2 (haligned.datum input
      (mem_sortedInputs.1 (mem_of_getElem? hinput)) out h language hout hscript hplutus hhashed)
    exact ⟨language, hhashed, input, out, datum,
      (getElem?_dedupAdjacent (spend_iff_count.2 haligned.spend i h hi)).trans hinput, hout, hdatum⟩
  | cert =>
    obtain ⟨cert, hcert, hscript, hplutus⟩ := getElem?_onlyPlutus.1 hi
    obtain ⟨language, hhashed⟩ := exists_hashedAs T hplutus
    obtain ⟨data, hdata⟩ := haligned.certificates cert (mem_of_getElem? hcert) h language hscript
      hplutus hhashed
    exact ⟨language, hhashed, cert, data, hcert, hdata⟩
  | propose =>
    obtain ⟨proposal, hproposal, hpolicy⟩ := getElem?_map_eq_some.1 hi
    obtain ⟨⟨language, hhashed⟩, data, hdata⟩ :=
      haligned.proposals proposal (mem_of_getElem? hproposal) h hpolicy
    exact ⟨language, hhashed, proposal, data, hproposal, hdata⟩
  | guarding =>
    obtain ⟨guard, hguard, hscript⟩ := getElem?_map_eq_some.1 hi
    cases guard with
    | verificationKey k => cases hscript
    | script h' =>
      cases hscript
      obtain ⟨language, hhashed⟩ := (haligned.guards i h hguard).2 hr
      exact ⟨language, hhashed, trivial⟩
  | mint | reward | vote =>
    obtain ⟨item, -, -, hplutus⟩ := getElem?_onlyPlutus.1 hi
    obtain ⟨language, hhashed⟩ := exists_hashedAs T hplutus
    exact ⟨language, hhashed, trivial⟩

theorem agree_of_aligned (hpass : PassesRedeemerChecks crypto tx utxo)
    (hindexed : Indexed crypto tx utxo) (hdistinct : DistinctPointers tx)
    (hnet : OneNetwork tx.body.withdrawals) (hideal : IdealHashing crypto T tx utxo)
    (haligned : Aligned crypto T tx utxo) : RedeemersAgree crypto T tx utxo := by
  have hagree : ∀ r ∈ tx.witnessSet.redeemers, ∀ h, Associated crypto tx utxo r h →
      ResolvesTo crypto T tx utxo r h := by
    intro r hr h hassoc
    have hi := hindexed.associated_iff.1 hassoc
    exact resolvesTo_iff.2 ⟨haligned.samePlaces hnet r.tag r.index.toNat h hi,
      (runnable_iff hideal).2 (haligned.prepared hi ⟨r, hr, rfl, rfl⟩)⟩
  refine ⟨hagree, fun r hr => ?_, fun tag i h hi hplutus => ?_⟩
  · obtain ⟨i, h, hi, hindex⟩ := checkExtraRedeemers_eq_nil.1 hpass.2 r hr
    exact ⟨h, hagree r hr h ⟨i, hi, hindex⟩⟩
  · have hredeemer : ∃ r ∈ tx.witnessSet.redeemers, r.tag = tag ∧ r.index.toNat = i := by
      by_cases hguard : tag = .guarding
      · subst hguard
        obtain ⟨guard, hguard, hscript⟩ := getElem?_map_eq_some.1 hi
        cases guard with
        | verificationKey k => cases hscript
        | script h' =>
          cases hscript
          exact (haligned.guards i h hguard).1 hplutus
      · exact hpass.redeemer hindexed hguard
          (plutusPositions_of_locking hguard (haligned.samePlaces hnet tag) hi hplutus)
    obtain ⟨r, hr, rfl, rfl⟩ := hredeemer
    have hcount := count_eq_one_of_mem hdistinct (mem_map_of_mem hr)
    rw [count_eq_countP, countP_map] at hcount
    rw [← hcount]
    refine countP_congr fun s _ => ?_
    simp only [decide_eq_true_eq, Function.comp_apply, beq_iff_eq, Prod.mk.injEq, ← BitVec.toNat_inj]

end Proofs

/-- On a transaction that passes both redeemer checks, whose withdrawals are of one network and
whose scripts have different hashes, the two phases agree and every Plutus-locked item is evaluated
by one redeemer exactly when no input up to a Plutus-locked one is repeated, all withdrawals are
from script accounts if one is from a Plutus account, no key votes in the role of a Plutus voter,
the older scripts have their datums, certificates and proposals have their Plutus form, the policies
of proposals are Plutus scripts of the transaction, and the Plutus guards are the guards with
redeemers. -/
theorem redeemers_agree_iff (crypto : Crypto) (T : PlutusTranslation) (tx : Transaction)
    (utxo : UtxoLookup) (hpass : PassesRedeemerChecks crypto tx utxo)
    (hindexed : Indexed crypto tx utxo) (hdistinct : DistinctPointers tx)
    (hnet : OneNetwork tx.body.withdrawals) (hideal : IdealHashing crypto T tx utxo) :
    RedeemersAgree crypto T tx utxo ↔ Aligned crypto T tx utxo :=
  ⟨aligned_of_agree hpass hindexed hnet hideal,
    agree_of_aligned hpass hindexed hdistinct hnet hideal⟩

/-! ## Two transactions -/

/-- A translation that loses everything but keeps going. -/
def emptyTranslation : PlutusTranslation where
  encodeNativeScript _ := []
  witnessNativeScriptOriginalBytes _ := none
  referenceNativeScriptOriginalBytes _ := none
  plutusDataElementSpans _ := none
  toCbor _ := .ok []
  certificateToPlutusV1V2 _ := .ok (.list [])
  certificateToPlutus _ := .ok (.list [])
  proposalToPlutus _ := .ok (.list [])
  voterToPlutus _ := .list []
  addressDebug _ := ""

/-- The account of the Plutus V3 script `07`, on the test network. -/
def scriptAccount : Bytes := 0xF0 :: (plain.blake2b224Tagged 3 [7]).toBytes

/-- An account of a key. -/
def keyAccount : Bytes := 0xE0 :: (1 : Hash28).toBytes

def rewardRedeemer (index : BitVec 32) : Redeemer where
  tag := .reward
  index := index
  data := .list []
  exUnits := ⟨0, 0⟩

/-- Withdraw from the script account alone. -/
def scriptWithdrawal : Transaction where
  hash := 1
  body := { withdrawals := .single scriptAccount 0 }
  witnessSet := { plutusV3Scripts := [[7]], redeemers := [rewardRedeemer 0] }

/-- Withdraw from the key account as well, which stands first in the map. -/
def mixedWithdrawals : Transaction where
  hash := 1
  body := { withdrawals := ⟨[(keyAccount, 0), (scriptAccount, 0)], by decide +kernel⟩ }
  witnessSet := { plutusV3Scripts := [[7]], redeemers := [rewardRedeemer 1] }

theorem scriptWithdrawal_aligned :
    Aligned plain emptyTranslation scriptWithdrawal fun _ => none where
  spend input hinput := by cases hinput
  reward _ account haccount := by
    obtain rfl := mem_singleton.1 haccount
    exact ⟨.testnet, plain.blake2b224Tagged 3 [7], by decide +kernel⟩
  vote voter hvoter := by cases hvoter
  datum input hinput := by cases hinput
  certificates cert hcert := by cases hcert
  proposals proposal hproposal := by cases hproposal
  guards i h hi := by cases hi

theorem script_withdrawal_agrees :
    PassesRedeemerChecks plain scriptWithdrawal (fun _ => none) ∧
      Indexed plain scriptWithdrawal (fun _ => none) ∧
      DistinctPointers scriptWithdrawal ∧
      OneNetwork scriptWithdrawal.body.withdrawals ∧
      IdealHashing plain emptyTranslation scriptWithdrawal (fun _ => none) ∧
      RedeemersAgree plain emptyTranslation scriptWithdrawal fun _ => none := by
  have hpass : PassesRedeemerChecks plain scriptWithdrawal (fun _ => none) :=
    ⟨by decide +kernel, by decide +kernel⟩
  have hindexed : Indexed plain scriptWithdrawal (fun _ => none) := by
    intro tag
    cases tag <;> decide +kernel
  have hdistinct : DistinctPointers scriptWithdrawal := nodup_singleton _
  have hnet : OneNetwork scriptWithdrawal.body.withdrawals := by
    refine ⟨.testnet, fun account haccount net c hreward => ?_⟩
    obtain rfl := mem_singleton.1 haccount
    have hscript : Address.fromBytes scriptAccount =
        .ok (.reward .testnet (.script (plain.blake2b224Tagged 3 [7]))) := by decide +kernel
    cases hscript.symm.trans hreward
    rfl
  have hideal : IdealHashing plain emptyTranslation scriptWithdrawal (fun _ => none) := by
    unfold IdealHashing
    decide +kernel
  exact ⟨hpass, hindexed, hdistinct, hnet, hideal, (redeemers_agree_iff plain emptyTranslation
    scriptWithdrawal (fun _ => none) hpass hindexed hdistinct hnet hideal).2
      scriptWithdrawal_aligned⟩

/-- With the key account in the map, phase 1 asks for the redeemer at position 1, where phase 2
finds the key. -/
theorem mixed_withdrawals_disagree :
    PassesRedeemerChecks plain mixedWithdrawals (fun _ => none) ∧
      Associated plain mixedWithdrawals (fun _ => none) (rewardRedeemer 1)
        (plain.blake2b224Tagged 3 [7]) ∧
      (resolveRedeemer plain emptyTranslation mixedWithdrawals [] (rewardRedeemer 1)).isOk
        = false :=
  ⟨⟨by decide +kernel, by decide +kernel⟩, ⟨1, by decide +kernel, rfl⟩, by decide +kernel⟩

end Dugite
