import Dugite.Primitives.Bytes
import Mathlib.Data.List.GetD

/-!
# Untyped Plutus Core

The terms of the language with de Bruijn indices that start at one, as the machine reads them.

`Term.inst ρ d t` replaces the variables of `t` beyond the innermost `d` binders by the terms of
`ρ`. Only closed terms are put in, so nothing is shifted; `Term.inst_cons` says that the variables
may be replaced one binder at a time.
-/

namespace Dugite.Uplc

open List Nat

/-- Static types of the elements of lists, pairs and arrays. -/
inductive TypeTag where
  | integer | byteString | string | unit | bool | data
  | list (elem : TypeTag)
  | pair (a b : TypeTag)
  | bls12_381G1Element | bls12_381G2Element | bls12_381MlResult
  | array (elem : TypeTag)
  | value
  deriving DecidableEq

inductive Data where
  | constr (tag : Int) (args : List Data)
  | map (entries : List (Data × Data))
  | list (elements : List Data)
  | i (n : Int)
  | b (bytes : Bytes)

inductive Constant where
  | integer (n : Int)
  | byteString (bytes : Bytes)
  | string (s : String)
  | unit
  | bool (b : Bool)
  | protoList (elemType : TypeTag) (elements : List Constant)
  | protoPair (aType bType : TypeTag) (a b : Constant)
  | data (d : Data)
  | bls12_381G1Element (bytes : Bytes)
  | bls12_381G2Element (bytes : Bytes)
  | bls12_381MlResult (bytes : Bytes)
  | array (elemType : TypeTag) (elements : List Constant)
  /-- By policy and by token. -/
  | value (assets : List (Bytes × List (Bytes × Int)))

inductive BuiltinId where
  | addInteger | subtractInteger | multiplyInteger | divideInteger | quotientInteger
  | remainderInteger | modInteger | equalsInteger | lessThanInteger | lessThanEqualsInteger
  | appendByteString | consByteString | sliceByteString | lengthOfByteString | indexByteString
  | equalsByteString | lessThanByteString | lessThanEqualsByteString | sha2_256 | sha3_256
  | blake2b_256 | verifyEd25519Signature | appendString | equalsString | encodeUtf8 | decodeUtf8
  | ifThenElse | chooseUnit | trace | fstPair | sndPair | chooseList | mkCons | headList
  | tailList | nullList | chooseData | constrData | mapData | listData | iData | bData
  | unConstrData | unMapData | unListData | unIData | unBData | equalsData | mkPairData
  | mkNilData | mkNilPairData | serialiseData | verifyEcdsaSecp256k1Signature
  | verifySchnorrSecp256k1Signature | bls12_381_G1_Add | bls12_381_G1_Neg
  | bls12_381_G1_ScalarMul | bls12_381_G1_Equal | bls12_381_G1_Compress | bls12_381_G1_Uncompress
  | bls12_381_G1_HashToGroup | bls12_381_G2_Add | bls12_381_G2_Neg | bls12_381_G2_ScalarMul
  | bls12_381_G2_Equal | bls12_381_G2_Compress | bls12_381_G2_Uncompress
  | bls12_381_G2_HashToGroup | bls12_381_MillerLoop | bls12_381_MulMlResult
  | bls12_381_FinalVerify | keccak_256 | blake2b_224 | integerToByteString | byteStringToInteger
  | andByteString | orByteString | xorByteString | complementByteString | readBit | writeBits
  | replicateByte | shiftByteString | rotateByteString | countSetBits | findFirstSetBit
  | ripemd_160 | expModInteger | dropList | lengthOfArray | listToArray | indexArray
  | bls12_381_G1_MultiScalarMul | bls12_381_G2_MultiScalarMul | insertCoin | lookupCoin
  | unionValue | valueContains | valueData | unValueData | scaleValue
  deriving DecidableEq

/-- The forces and the arguments that a builtin waits for. -/
def arityOf : BuiltinId → Nat × Nat
  | .addInteger | .subtractInteger | .multiplyInteger | .divideInteger | .quotientInteger |
    .remainderInteger | .modInteger | .equalsInteger | .lessThanInteger |
    .lessThanEqualsInteger | .appendByteString | .consByteString | .indexByteString |
    .equalsByteString | .lessThanByteString | .lessThanEqualsByteString | .appendString |
    .equalsString | .constrData | .equalsData | .mkPairData | .bls12_381_G1_Add |
    .bls12_381_G1_ScalarMul | .bls12_381_G1_Equal | .bls12_381_G1_HashToGroup |
    .bls12_381_G2_Add | .bls12_381_G2_ScalarMul | .bls12_381_G2_Equal |
    .bls12_381_G2_HashToGroup | .bls12_381_MillerLoop | .bls12_381_MulMlResult |
    .bls12_381_FinalVerify | .byteStringToInteger | .readBit | .replicateByte |
    .shiftByteString | .rotateByteString | .bls12_381_G1_MultiScalarMul |
    .bls12_381_G2_MultiScalarMul | .unionValue | .valueContains | .scaleValue => (0, 2)
  | .sliceByteString | .verifyEd25519Signature | .verifyEcdsaSecp256k1Signature |
    .verifySchnorrSecp256k1Signature | .integerToByteString | .andByteString | .orByteString |
    .xorByteString | .writeBits | .expModInteger | .lookupCoin => (0, 3)
  | .lengthOfByteString | .sha2_256 | .sha3_256 | .blake2b_256 | .encodeUtf8 | .decodeUtf8 |
    .mapData | .listData | .iData | .bData | .unConstrData | .unMapData | .unListData |
    .unIData | .unBData | .mkNilData | .mkNilPairData | .serialiseData | .bls12_381_G1_Neg |
    .bls12_381_G1_Compress | .bls12_381_G1_Uncompress | .bls12_381_G2_Neg |
    .bls12_381_G2_Compress | .bls12_381_G2_Uncompress | .keccak_256 | .blake2b_224 |
    .complementByteString | .countSetBits | .findFirstSetBit | .ripemd_160 | .valueData |
    .unValueData => (0, 1)
  | .ifThenElse => (1, 3)
  | .chooseUnit | .trace | .mkCons | .dropList | .indexArray => (1, 2)
  | .fstPair | .sndPair => (2, 1)
  | .chooseList => (2, 3)
  | .headList | .tailList | .nullList | .lengthOfArray | .listToArray => (1, 1)
  | .chooseData => (1, 6)
  | .insertCoin => (0, 4)

inductive Term where
  /-- The innermost binder has index one. -/
  | var (i : Nat)
  | lam (body : Term)
  | app (fun' arg : Term)
  | const (c : Constant)
  | delay (body : Term)
  | force (body : Term)
  | error
  | builtin (id : BuiltinId)
  | constr (tag : Nat) (args : List Term)
  | case (scrutinee : Term) (branches : List Term)

namespace Term

/-- All variables are bound, the outermost ones by `n` binders around the term. -/
inductive Closed : Nat → Term → Prop
  | var {n i : Nat} (hpos : 1 ≤ i) (hle : i ≤ n) : Closed n (.var i)
  | lam {n : Nat} {body : Term} : Closed (n + 1) body → Closed n (.lam body)
  | app {n : Nat} {f a : Term} : Closed n f → Closed n a → Closed n (.app f a)
  | const {n : Nat} {c : Constant} : Closed n (.const c)
  | delay {n : Nat} {body : Term} : Closed n body → Closed n (.delay body)
  | force {n : Nat} {body : Term} : Closed n body → Closed n (.force body)
  | error {n : Nat} : Closed n .error
  | builtin {n : Nat} {id : BuiltinId} : Closed n (.builtin id)
  | constr {n tag : Nat} {args : List Term} : (∀ a ∈ args, Closed n a) → Closed n (.constr tag args)
  | case {n : Nat} {s : Term} {branches : List Term} : Closed n s →
      (∀ b ∈ branches, Closed n b) → Closed n (.case s branches)

mutual

/-- Replace the variables beyond the innermost `d` binders. -/
def inst (ρ : List Term) (d : Nat) : Term → Term
  | .var i => if i ≤ d then .var i else ρ.getD (i - d - 1) (.var (i - ρ.length))
  | .lam body => .lam (body.inst ρ (d + 1))
  | .app f a => .app (f.inst ρ d) (a.inst ρ d)
  | .const c => .const c
  | .delay body => .delay (body.inst ρ d)
  | .force body => .force (body.inst ρ d)
  | .error => .error
  | .builtin id => .builtin id
  | .constr tag args => .constr tag (instAll ρ d args)
  | .case s branches => .case (s.inst ρ d) (instAll ρ d branches)

def instAll (ρ : List Term) (d : Nat) : List Term → List Term
  | [] => []
  | t :: ts => t.inst ρ d :: instAll ρ d ts

end

variable (ρ : List Term)

@[simp] theorem instAll_eq_map (d : Nat) (ts : List Term) : instAll ρ d ts = ts.map (inst ρ d) := by
  induction ts with
  | nil => rfl
  | cons t ts ih => rw [instAll, ih, map_cons]

variable {d m : Nat} {t : Term}

theorem inst_var_of_le {i : Nat} (h : i ≤ d) : inst ρ d (.var i) = .var i := by
  rw [inst, if_pos h]

theorem inst_var_of_gt {i : Nat} (h : d < i) :
    inst ρ d (.var i) = ρ.getD (i - d - 1) (.var (i - ρ.length)) := by
  rw [inst, if_neg (not_le.2 h)]

/-- A closed term has no variables to replace. -/
theorem Closed.inst_eq {n : Nat} (h : Closed n t) (ρ : List Term) : inst ρ n t = t := by
  induction h with
  | var _ hle => exact inst_var_of_le ρ hle
  | lam _ ih => rw [inst, ih]
  | app _ _ ihf iha => rw [inst, ihf, iha]
  | const => rfl
  | delay _ ih | force _ ih => rw [inst, ih]
  | error | builtin => rfl
  | constr _ ih => rw [inst, instAll_eq_map, map_congr_left ih, map_id']
  | case _ _ ihs ihb => rw [inst, ihs, instAll_eq_map, map_congr_left ihb, map_id']

theorem Closed.mono {n : Nat} (h : Closed n t) (hle : n ≤ m) : Closed m t := by
  induction h generalizing m with
  | var hpos hi => exact .var hpos (hi.trans hle)
  | lam _ ih => exact .lam (ih (succ_le_succ hle))
  | app _ _ ihf iha => exact .app (ihf hle) (iha hle)
  | const => exact .const
  | delay _ ih => exact .delay (ih hle)
  | force _ ih => exact .force (ih hle)
  | error => exact .error
  | builtin => exact .builtin
  | constr _ ih => exact .constr fun a ha => ih a ha hle
  | case _ _ ihs ihb => exact .case (ihs hle) fun b hb => ihb b hb hle

variable {ρ : List Term}

theorem Closed.inst (hρ : ∀ s ∈ ρ, Closed 0 s)
    (h : Closed m t) (hm : m = d + ρ.length) : Closed d (inst ρ d t) := by
  induction h generalizing d with
  | @var n i hpos hi =>
    rcases lt_or_ge d i with hlt | hle
    · have hget : i - d - 1 < ρ.length := by omega
      rw [inst_var_of_gt ρ hlt, getD_eq_getElem _ _ hget]
      exact (hρ _ (getElem_mem hget)).mono (zero_le d)
    · rw [inst_var_of_le ρ hle]
      exact .var hpos hle
  | lam _ ih => exact .lam (ih (by omega))
  | app _ _ ihf iha => exact .app (ihf hm) (iha hm)
  | const => exact .const
  | delay _ ih => exact .delay (ih hm)
  | force _ ih => exact .force (ih hm)
  | error => exact .error
  | builtin => exact .builtin
  | constr _ ih =>
    rw [Term.inst, instAll_eq_map]
    exact .constr fun a ha => by
      obtain ⟨b, hb, rfl⟩ := mem_map.1 ha
      exact ih b hb hm
  | case _ _ ihs ihb =>
    rw [Term.inst, instAll_eq_map]
    exact .case (ihs hm) fun a ha => by
      obtain ⟨b, hb, rfl⟩ := mem_map.1 ha
      exact ihb b hb hm

/-- The innermost of the variables may be replaced last. -/
theorem inst_cons (hρ : ∀ s ∈ ρ, Closed 0 s) (v : Term)
    (h : Closed m t) (hm : m = d + ρ.length + 1) :
    inst [v] d (inst ρ (d + 1) t) = inst (v :: ρ) d t := by
  induction h generalizing d with
  | @var n i hpos hi =>
    rcases lt_trichotomy i (d + 1) with hlt | rfl | hgt
    · rw [inst_var_of_le ρ hlt.le, inst_var_of_le _ (by omega), inst_var_of_le _ (by omega)]
    · rw [inst_var_of_le ρ (le_refl _), inst_var_of_gt _ (by omega), inst_var_of_gt _ (by omega)]
      simp
    have hget : i - (d + 1) - 1 < ρ.length := by omega
    have hclosed := (hρ _ (getElem_mem hget)).mono (zero_le d)
    rw [inst_var_of_gt ρ (by omega), inst_var_of_gt _ (by omega), getD_eq_getElem _ _ hget,
      hclosed.inst_eq, show i - d - 1 = i - (d + 1) - 1 + 1 by omega, getD_cons_succ,
      getD_eq_getElem _ _ hget]
  | lam _ ih => rw [inst, inst, inst, ih (by omega)]
  | app _ _ ihf iha => rw [inst, inst, inst, ihf hm, iha hm]
  | const => rfl
  | delay _ ih | force _ ih => rw [inst, inst, inst, ih hm]
  | error | builtin => rfl
  | constr _ ih =>
    simp only [inst, instAll_eq_map, map_map]
    exact congrArg (constr _) (map_congr_left fun a ha => ih a ha hm)
  | case _ _ ihs ihb =>
    simp only [inst, instAll_eq_map, map_map]
    rw [ihs hm]
    exact congrArg (case _) (map_congr_left fun b hb => ihb b hb hm)

end Term

end Dugite.Uplc
