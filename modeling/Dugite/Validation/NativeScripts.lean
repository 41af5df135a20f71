import Dugite.Plutus.Resolve

/-!
# Native scripts and the scripts a transaction brings

The evaluator of native scripts, the hashes of scripts, and the scripts that a transaction supplies:
in its witness set, or by reference on the outputs of its inputs and reference inputs. A native
script is hashed over its wire bytes when these are known, and over a fresh encoding otherwise.
-/

namespace Dugite

open List

/-! ## Evaluation -/

section Evaluate
variable (signers : List Hash32) (invalidBefore invalidHereafter : Option Nat)
  (satisfiedGuards : List Credential)

mutual

/-- Time locks look at the validity interval of the transaction; an open bound satisfies none. -/
def evaluateNativeScriptWithGuards : NativeScript → Bool
  | .scriptPubkey keyHash => decide (keyHash ∈ signers)
  | .scriptAll scripts => (evaluateEach scripts).all id
  | .scriptAny scripts => (evaluateEach scripts).any id
  | .scriptNOfK n scripts => decide (n ≤ (evaluateEach scripts).count true)
  | .invalidBefore lockStart => invalidBefore.any fun start => decide (lockStart ≤ start)
  | .invalidHereafter lockExp => invalidHereafter.any fun expiry => decide (expiry ≤ lockExp)
  | .requireGuard cred => decide (cred ∈ satisfiedGuards)

/-- The results of a list of scripts. -/
def evaluateEach : List NativeScript → List Bool
  | [] => []
  | script :: rest => evaluateNativeScriptWithGuards script :: evaluateEach rest

end

/-- Without guards, a `requireGuard` fails. -/
def evaluateNativeScript (script : NativeScript) : Bool :=
  evaluateNativeScriptWithGuards signers invalidBefore invalidHereafter [] script

end Evaluate

/-! ## Scripts by hash -/

section Supplied
variable (crypto : Crypto) (T : PlutusTranslation) (tx : Transaction) (utxo : UtxoLookup)

/-- The bytes of a native script under its hash. -/
def nativeScriptBytes (ns : NativeScript) (original : Option Bytes) : Bytes :=
  original.getD (T.encodeNativeScript ns)

def nativeScriptHash (ns : NativeScript) (original : Option Bytes) : Hash28 :=
  crypto.blake2b224Tagged 0 (nativeScriptBytes T ns original)

def computeScriptRefHash (nativeOriginal : Option Bytes) : ScriptRef → Hash28
  | .nativeScript ns => nativeScriptHash crypto T ns nativeOriginal
  | .plutusV1 bytes => crypto.blake2b224Tagged 1 bytes
  | .plutusV2 bytes => crypto.blake2b224Tagged 2 bytes
  | .plutusV3 bytes => crypto.blake2b224Tagged 3 bytes
  | .plutusV4 bytes => crypto.blake2b224Tagged 4 bytes

def witnessNativeOriginalBytes : Option (List Bytes) :=
  tx.rawWitnessCbor.bind T.witnessNativeScriptOriginalBytes

def referenceNativeOriginalBytes (out : TransactionOutput) : Option Bytes :=
  out.rawCbor.bind T.referenceNativeScriptOriginalBytes

/-- The native scripts of the witness set with their hashes. -/
def witnessNativeScripts : List (Hash28 × NativeScript) :=
  tx.witnessSet.nativeScripts.zipIdx.map fun e =>
    (nativeScriptHash crypto T e.1 ((witnessNativeOriginalBytes T tx).bind (·[e.2]?)), e.1)

/-- The outputs whose reference scripts a transaction may use. -/
def referenceOutputs : List TransactionOutput :=
  (tx.body.inputs ++ tx.body.referenceInputs).filterMap utxo

/-- The native scripts supplied by reference, with their hashes. -/
def referenceNativeScripts : List (Hash28 × NativeScript) :=
  (referenceOutputs tx utxo).filterMap fun out =>
    match out.scriptRef with
    | some (.nativeScript ns) =>
      some (nativeScriptHash crypto T ns (referenceNativeOriginalBytes T out), ns)
    | _ => none

/-- All native scripts of a transaction with their hashes. -/
def suppliedNativeScripts : List (Hash28 × NativeScript) :=
  witnessNativeScripts crypto T tx ++ referenceNativeScripts crypto T tx utxo

def collectAvailableScriptHashes : Finset Hash28 :=
  ((witnessNativeScripts crypto T tx).map (·.1) ++
    tx.witnessSet.plutusV1Scripts.map (crypto.blake2b224Tagged 1) ++
    tx.witnessSet.plutusV2Scripts.map (crypto.blake2b224Tagged 2) ++
    tx.witnessSet.plutusV3Scripts.map (crypto.blake2b224Tagged 3) ++
    (referenceOutputs tx utxo).filterMap fun out => out.scriptRef.map
      (computeScriptRefHash crypto T (referenceNativeOriginalBytes T out))).toFinset

/-- `has_plutus_scripts`: reference scripts do not count. -/
def hasPlutusScripts : Bool :=
  !tx.witnessSet.plutusV1Scripts.isEmpty || !tx.witnessSet.plutusV2Scripts.isEmpty ||
    !tx.witnessSet.plutusV3Scripts.isEmpty || !tx.witnessSet.redeemers.isEmpty

end Supplied

/-! ## Hashes without collisions -/

section Ideal
variable (crypto : Crypto) (T : PlutusTranslation) (tx : Transaction) (utxo : UtxoLookup)

/-- What phase 2 hashes for a reference script. -/
def scriptPreimage : ScriptRef → Bytes
  | .nativeScript ns => 0 :: T.encodeNativeScript ns
  | .plutusV1 bytes => 1 :: bytes
  | .plutusV2 bytes => 2 :: bytes
  | .plutusV3 bytes => 3 :: bytes
  | .plutusV4 bytes => 4 :: bytes

/-- Everything that either phase hashes as a script of the transaction. -/
def hashedScripts : List Bytes :=
  tx.witnessSet.nativeScripts.zipIdx.map (fun e =>
    0 :: nativeScriptBytes T e.1 ((witnessNativeOriginalBytes T tx).bind (·[e.2]?))) ++
  (referenceOutputs tx utxo).filterMap (fun out =>
    match out.scriptRef with
    | some (.nativeScript ns) =>
      some (0 :: nativeScriptBytes T ns (referenceNativeOriginalBytes T out))
    | _ => none) ++
  tx.witnessSet.plutusV1Scripts.map (1 :: ·) ++
  tx.witnessSet.plutusV2Scripts.map (2 :: ·) ++
  tx.witnessSet.plutusV3Scripts.map (3 :: ·) ++
  ((resolvePhase2UtxoPairs tx utxo).filterMap (·.2.scriptRef)).map (scriptPreimage T)

/-- The hash is ideal on the scripts of the transaction: different scripts, different hashes. -/
def IdealHashing : Prop :=
  ∀ a ∈ hashedScripts T tx utxo, ∀ b ∈ hashedScripts T tx utxo,
    crypto.blake2b224 a = crypto.blake2b224 b → a = b

end Ideal

section Lemmas
variable {crypto : Crypto} {T : PlutusTranslation} {tx : Transaction} {utxo : UtxoLookup}

theorem referenceScripts_eq :
    referenceScripts tx utxo = (referenceOutputs tx utxo).filterMap (·.scriptRef) := by
  rw [referenceScripts, referenceOutputs, filterMap_filterMap]

theorem scriptRefHash_eq (s : ScriptRef) :
    scriptRefHash crypto T s = crypto.blake2b224 (scriptPreimage T s) := by
  cases s <;> rfl

/-- A hash that is the hash of some Plutus script of the transaction. -/
def HashedAsPlutus (crypto : Crypto) (T : PlutusTranslation) (tx : Transaction) (utxo : UtxoLookup)
    (h : Hash28) : Prop :=
  ∃ (tag : UInt8) (bytes : Bytes), tag ≠ 0 ∧ tag :: bytes ∈ hashedScripts T tx utxo ∧
    crypto.blake2b224 (tag :: bytes) = h

/-- The first byte of what is hashed for a script of the language. -/
def ScriptLanguage.tag : ScriptLanguage → UInt8
  | .plutusV1 => 1
  | .plutusV2 => 2
  | .plutusV3 => 3
  | .plutusV4 => 4

/-- A hash that is the hash of some script of the transaction in this language. -/
def HashedAs (crypto : Crypto) (T : PlutusTranslation) (tx : Transaction) (utxo : UtxoLookup)
    (h : Hash28) (language : ScriptLanguage) : Prop :=
  ∃ bytes, language.tag :: bytes ∈ hashedScripts T tx utxo ∧
    crypto.blake2b224 (language.tag :: bytes) = h

variable {h : Hash28} {script : Bytes × ScriptLanguage}

/-- The Plutus scripts of a transaction: in the witness set, or by reference. -/
theorem providedPlutus_iff : providedPlutus crypto tx utxo h = true ↔
      (∃ s ∈ tx.witnessSet.plutusV1Scripts, crypto.blake2b224Tagged 1 s = h) ∨
      (∃ s ∈ tx.witnessSet.plutusV2Scripts, crypto.blake2b224Tagged 2 s = h) ∨
      (∃ s ∈ tx.witnessSet.plutusV3Scripts, crypto.blake2b224Tagged 3 s = h) ∨
      ∃ out ∈ referenceOutputs tx utxo, ∃ s e, out.scriptRef = some s ∧ s.plutus = some e ∧
        crypto.blake2b224Tagged e.1 e.2 = h := by
  unfold providedPlutus
  rw [decide_eq_true_iff, collectPlutusScriptHashes, mem_toFinset, suppliedPlutusScripts,
    referenceScripts_eq]
  simp only [map_append, map_map, mem_append, mem_map, Function.comp_def,
    mem_filterMap, Option.map_eq_some_iff, or_assoc]
  constructor
  · rintro (h1 | h2 | h3 | ⟨e, ⟨s, ⟨out, hout, hs⟩, a, ha, rfl⟩, rfl⟩)
    · exact .inl h1
    · exact .inr (.inl h2)
    · exact .inr (.inr (.inl h3))
    · exact .inr (.inr (.inr ⟨out, hout, s, a, hs, ha, rfl⟩))
  · rintro (h1 | h2 | h3 | ⟨out, hout, s, a, hs, ha, rfl⟩)
    · exact .inl h1
    · exact .inr (.inl h2)
    · exact .inr (.inr (.inl h3))
    · exact .inr (.inr (.inr ⟨_, ⟨s, ⟨out, hout, hs⟩, a, ha, rfl⟩, rfl⟩))

theorem witnessScript_eq_some {scripts : List Bytes} {tag : UInt8} {language : ScriptLanguage} :
    witnessScript crypto scripts tag language h = some script →
      script.1 ∈ scripts ∧ crypto.blake2b224Tagged tag script.1 = h ∧ script.2 = language := by
  intro hfind
  obtain ⟨s, hs, rfl⟩ := Option.map_eq_some_iff.1 hfind
  exact ⟨mem_of_find?_eq_some hs, by simpa using find?_some hs, rfl⟩

theorem find?_scriptRef {s : ScriptRef}
    (hs : ((resolvePhase2UtxoPairs tx utxo).filterMap (·.2.scriptRef)).find?
      (fun s => scriptRefHash crypto T s = h) = some s) :
    scriptPreimage T s ∈ hashedScripts T tx utxo ∧ crypto.blake2b224 (scriptPreimage T s) = h := by
  refine ⟨mem_append_right _ (mem_map_of_mem (mem_of_find?_eq_some hs)), ?_⟩
  rw [← scriptRefHash_eq]
  simpa using find?_some hs

/-- A script that phase 2 finds is one of the transaction, in its language. -/
theorem hashedAs_of_findScriptBytes
    (hfind : findScriptBytes crypto T tx (resolvePhase2UtxoPairs tx utxo) h = .ok script) :
    HashedAs crypto T tx utxo h script.2 := by
  refine ⟨script.1, ?_⟩
  unfold findScriptBytes at hfind
  split at hfind
  · next found hwitness =>
    cases hfind
    obtain h1 | ⟨-, h2⟩ := (Option.orElse_eq_some _ _ _).1 hwitness
    · obtain ⟨hs, hhash, hlanguage⟩ := witnessScript_eq_some h1
      rw [hlanguage]
      exact ⟨by simp [hashedScripts, ScriptLanguage.tag, hs], hhash⟩
    obtain h2 | ⟨-, h3⟩ := (Option.orElse_eq_some _ _ _).1 h2
    · obtain ⟨hs, hhash, hlanguage⟩ := witnessScript_eq_some h2
      rw [hlanguage]
      exact ⟨by simp [hashedScripts, ScriptLanguage.tag, hs], hhash⟩
    · obtain ⟨hs, hhash, hlanguage⟩ := witnessScript_eq_some h3
      rw [hlanguage]
      exact ⟨by simp [hashedScripts, ScriptLanguage.tag, hs], hhash⟩
  · split at hfind
    · next bytes hs => cases hfind; exact find?_scriptRef hs
    · next bytes hs => cases hfind; exact find?_scriptRef hs
    · next bytes hs => cases hfind; exact find?_scriptRef hs
    · next bytes hs => cases hfind; exact find?_scriptRef hs
    · cases hfind
    · cases hfind

/-- A script that phase 2 finds is a Plutus script. -/
theorem hashedAsPlutus_of_findScriptBytes
    (hfind : findScriptBytes crypto T tx (resolvePhase2UtxoPairs tx utxo) h = .ok script) :
    HashedAsPlutus crypto T tx utxo h := by
  obtain ⟨bytes, hmem, hhash⟩ := hashedAs_of_findScriptBytes hfind
  refine ⟨script.2.tag, bytes, ?_, hmem, hhash⟩
  cases script.2 <;> decide

theorem HashedAs.unique (hideal : IdealHashing crypto T tx utxo)
    {language language' : ScriptLanguage} (h₁ : HashedAs crypto T tx utxo h language) (h₂ : HashedAs crypto T tx utxo h language') :
    language = language' := by
  obtain ⟨bytes, hmem, hhash⟩ := h₁
  obtain ⟨bytes', hmem', hhash'⟩ := h₂
  have htag := (List.cons.inj (hideal _ hmem _ hmem' (hhash.trans hhash'.symm))).1
  cases language <;> cases language' <;> first | rfl | exact absurd htag (by decide)

/-- Phase 2 finds a script of the transaction, unless another script has its hash. -/
theorem exists_findScriptBytes (hideal : IdealHashing crypto T tx utxo) {language : ScriptLanguage}
    (hhashed : HashedAs crypto T tx utxo h language) :
    ∃ script, findScriptBytes crypto T tx (resolvePhase2UtxoPairs tx utxo) h = .ok script := by
  obtain ⟨bytes, hmem, hhash⟩ := hhashed
  unfold findScriptBytes
  split
  · next found _ => exact ⟨found, rfl⟩
  next hnone =>
  -- It is not in the witness set.
  have hnot : ∀ {scripts : List Bytes} {tag lang}, witnessScript crypto scripts tag lang h = none →
      ∀ s ∈ scripts, crypto.blake2b224Tagged tag s ≠ h := by
    intro scripts tag lang hfind s hs
    rw [witnessScript, Option.map_eq_none_iff, find?_eq_none] at hfind
    simpa using hfind s hs
  obtain ⟨h1, hrest⟩ := (Option.orElse_eq_none _ _).1 hnone
  obtain ⟨h2, h3⟩ := (Option.orElse_eq_none _ _).1 hrest
  have htag : language.tag ≠ 0 := by cases language <;> decide
  obtain ⟨s, hs, hpreimage⟩ : ∃ s ∈ (resolvePhase2UtxoPairs tx utxo).filterMap (·.2.scriptRef),
      scriptPreimage T s = language.tag :: bytes := by
    simp only [hashedScripts, mem_append, mem_map, cons.injEq] at hmem
    obtain ((((⟨e, -, hzero, -⟩ | hnative) | ⟨s, hs, heq, rfl⟩) | ⟨s, hs, heq, rfl⟩) |
      ⟨s, hs, heq, rfl⟩) | hs := hmem
    · exact absurd hzero.symm htag
    · obtain ⟨out, -, hout⟩ := mem_filterMap.1 hnative
      split at hout
      · exact absurd (List.cons.inj (Option.some.inj hout)).1.symm htag
      · cases hout
    · exact absurd (heq ▸ hhash) (hnot h1 s hs)
    · exact absurd (heq ▸ hhash) (hnot h2 s hs)
    · exact absurd (heq ▸ hhash) (hnot h3 s hs)
    · exact hs
  have hsome : (((resolvePhase2UtxoPairs tx utxo).filterMap (·.2.scriptRef)).find?
      fun s => scriptRefHash crypto T s = h).isSome := by
    refine find?_isSome.2 ⟨s, hs, decide_eq_true ?_⟩
    rw [scriptRefHash_eq, hpreimage, hhash]
  obtain ⟨s', hs'⟩ := Option.isSome_iff_exists.1 hsome
  obtain ⟨hmem', hhash'⟩ := find?_scriptRef hs'
  have hsame := hideal _ hmem' _ hmem (hhash'.trans hhash.symm)
  rw [hs']
  cases s' with
  | nativeScript ns => exact absurd (List.cons.inj hsame).1.symm htag
  | plutusV1 bytes | plutusV2 bytes | plutusV3 bytes | plutusV4 bytes => exact ⟨_, rfl⟩

/-- What phase 2 finds for a hash, as far as its language goes. -/
theorem exists_findScriptBytes_iff (hideal : IdealHashing crypto T tx utxo)
    {Q : ScriptLanguage → Prop} :
    (∃ script, findScriptBytes crypto T tx (resolvePhase2UtxoPairs tx utxo) h = .ok script ∧
      Q script.2) ↔ ∃ language, HashedAs crypto T tx utxo h language ∧ Q language := by
  constructor
  · rintro ⟨script, hfind, hq⟩
    exact ⟨script.2, hashedAs_of_findScriptBytes hfind, hq⟩
  · rintro ⟨language, hhashed, hq⟩
    obtain ⟨script, hfind⟩ := exists_findScriptBytes hideal hhashed
    refine ⟨script, hfind, ?_⟩
    rwa [(hashedAs_of_findScriptBytes hfind).unique hideal hhashed]

/-- What phase 1 takes for a Plutus script is a script in some language. -/
theorem exists_hashedAs (T : PlutusTranslation) (hplutus : providedPlutus crypto tx utxo h = true) :
    ∃ language, HashedAs crypto T tx utxo h language := by
  obtain ⟨s, hs, rfl⟩ | ⟨s, hs, rfl⟩ | ⟨s, hs, rfl⟩ | ⟨out, hout, s, e, hs, he, rfl⟩ :=
    providedPlutus_iff.1 hplutus
  · exact ⟨.plutusV1, s, by simp [hashedScripts, ScriptLanguage.tag, hs], rfl⟩
  · exact ⟨.plutusV2, s, by simp [hashedScripts, ScriptLanguage.tag, hs], rfl⟩
  · exact ⟨.plutusV3, s, by simp [hashedScripts, ScriptLanguage.tag, hs], rfl⟩
  have hmem : scriptPreimage T s ∈ hashedScripts T tx utxo := by
    obtain ⟨input, hinput, hutxo⟩ := mem_filterMap.1 hout
    refine mem_append_right _ (mem_map_of_mem (mem_filterMap.2 ⟨(input, out), ?_, hs⟩))
    exact mem_filterMap.2 ⟨input, mem_append_left _ hinput, by rw [hutxo]; rfl⟩
  cases s with
  | nativeScript ns => cases he
  | plutusV1 bytes => cases he; exact ⟨.plutusV1, bytes, hmem, rfl⟩
  | plutusV2 bytes => cases he; exact ⟨.plutusV2, bytes, hmem, rfl⟩
  | plutusV3 bytes => cases he; exact ⟨.plutusV3, bytes, hmem, rfl⟩
  | plutusV4 bytes => cases he; exact ⟨.plutusV4, bytes, hmem, rfl⟩

theorem hashed_of_suppliedNative {ns : NativeScript}
    (hns : (h, ns) ∈ suppliedNativeScripts crypto T tx utxo) :
    ∃ bytes, (0 : UInt8) :: bytes ∈ hashedScripts T tx utxo ∧ crypto.blake2b224 (0 :: bytes) = h := by
  obtain hw | hr := mem_append.1 hns
  · obtain ⟨e, he, heq⟩ := mem_map.1 hw
    obtain ⟨rfl, rfl⟩ := Prod.mk.inj heq
    refine ⟨_, ?_, rfl⟩
    simp only [hashedScripts, append_assoc]
    exact mem_append_left _ (mem_map_of_mem he)
  obtain ⟨out, hout, heq⟩ := mem_filterMap.1 hr
  split at heq
  · next ns' hs =>
    obtain ⟨rfl, rfl⟩ := Prod.mk.inj (Option.some.inj heq)
    refine ⟨_, ?_, rfl⟩
    simp only [hashedScripts, append_assoc]
    refine mem_append_right _ (mem_append_left _ (mem_filterMap.2 ⟨out, hout, ?_⟩))
    rw [hs]
  · cases heq

/-- What is available is a native or a Plutus script. -/
theorem mem_collectAvailableScriptHashes : h ∈ collectAvailableScriptHashes crypto T tx utxo ↔
      (∃ ns, (h, ns) ∈ suppliedNativeScripts crypto T tx utxo) ∨
        providedPlutus crypto tx utxo h = true := by
  rw [collectAvailableScriptHashes, mem_toFinset, providedPlutus_iff]
  simp only [mem_append, mem_map, mem_filterMap, Option.map_eq_some_iff,
    suppliedNativeScripts, or_assoc]
  constructor
  · rintro (⟨e, hns, rfl⟩ | h1 | h2 | h3 | ⟨out, hout, s, hs, rfl⟩)
    · exact .inl ⟨e.2, .inl hns⟩
    · exact .inr (.inl h1)
    · exact .inr (.inr (.inl h2))
    · exact .inr (.inr (.inr (.inl h3)))
    · cases s with
      | nativeScript ns =>
        refine .inl ⟨ns, .inr (mem_filterMap.2 ⟨out, hout, ?_⟩)⟩
        rw [hs]
        rfl
      | plutusV1 b | plutusV2 b | plutusV3 b | plutusV4 b =>
        exact .inr (.inr (.inr (.inr ⟨out, hout, _, _, hs, rfl, rfl⟩)))
  · rintro (⟨ns, hns | hns⟩ | h1 | h2 | h3 | ⟨out, hout, s, e, hs, he, rfl⟩)
    · exact .inl ⟨_, hns, rfl⟩
    · obtain ⟨out, hout, heq⟩ := mem_filterMap.1 hns
      split at heq
      · next ns' hs =>
        obtain ⟨rfl, rfl⟩ := Prod.mk.inj (Option.some.inj heq)
        exact .inr (.inr (.inr (.inr ⟨out, hout, _, hs, rfl⟩)))
      · cases heq
    · exact .inr (.inl h1)
    · exact .inr (.inr (.inl h2))
    · exact .inr (.inr (.inr (.inl h3)))
    · refine .inr (.inr (.inr (.inr ⟨out, hout, s, hs, ?_⟩)))
      cases s <;> cases he <;> rfl

/-- An available script that phase 2 can run is one that phase 1 asks a redeemer for. -/
theorem provided_of_available (hideal : IdealHashing crypto T tx utxo)
    (havailable : h ∈ collectAvailableScriptHashes crypto T tx utxo)
    (hplutus : HashedAsPlutus crypto T tx utxo h) : providedPlutus crypto tx utxo h = true := by
  obtain ⟨ns, hns⟩ | hprovided := mem_collectAvailableScriptHashes.1 havailable
  · obtain ⟨tag, bytes, htag, hmem, hhash⟩ := hplutus
    obtain ⟨bytes', hmem', hhash'⟩ := hashed_of_suppliedNative hns
    have heq := hideal _ hmem _ hmem' (hhash.trans hhash'.symm)
    exact absurd (List.cons.inj heq).1 htag
  · exact hprovided

end Lemmas

end Dugite
