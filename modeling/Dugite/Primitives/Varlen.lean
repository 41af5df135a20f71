import Mathlib.Data.List.Induction
import Dugite.Primitives.Bytes

/-!
# Variable-length integers of MemPack

`decode_varlen` (`mempack/compact.rs`) takes seven bits from each byte, most significant first, up
to a byte without the continuation bit, and ten bytes at most. Its accumulator is a 64-bit word and
drops what is shifted out of it. Only a number of ten bytes can lose bits, and then its first byte
shows whether it does (`decodeVarlen_exact`).
-/

namespace Dugite.Mempack

open List Nat

def maxVarlenBytes : Nat := 10

/-- Of the first of ten bytes, bit 7 has to be set, bit 0 is free, and the others are zero. -/
def varlenW64MsMask : UInt8 := 0b11111110

inductive VarlenError where
  /-- Varlen: empty input. -/
  | emptyInput
  /-- Varlen: overflow, unexpected high bits set in the most significant byte. -/
  | overflow (firstContByte : UInt8)
  /-- Varlen: exceeded maximum length without termination. -/
  | unterminated

/-- The loop at position `i`, with the first byte that had a continuation bit (zero before there is
one) and the accumulator. -/
def varlenLoop (i : Nat) (firstContByte : UInt8) (acc : UInt64) :
    Bytes → Except VarlenError (UInt64 × Nat)
  | [] => .error .unterminated
  | byte :: rest =>
    let firstContByte := if byte &&& 0x80 ≠ 0 ∧ firstContByte = 0 then byte else firstContByte
    let acc := acc <<< 7 ||| (byte &&& 0x7f).toUInt64
    if byte &&& 0x80 = 0 then
      if i + 1 = maxVarlenBytes ∧ firstContByte &&& varlenW64MsMask ≠ 0x80 then
        .error (.overflow firstContByte)
      else .ok (acc, i + 1)
    else varlenLoop (i + 1) firstContByte acc rest

def decodeVarlen (data : Bytes) : Except VarlenError (UInt64 × Nat) :=
  if data.isEmpty then .error .emptyInput else varlenLoop 0 0 0 (data.take maxVarlenBytes)

/-! ## What the bytes denote -/

/-- The number in base 128, most significant byte first; the continuation bits do not count. -/
def base128 (bytes : Bytes) : Nat := bytes.foldl (fun n byte => n * 128 + byte.toNat % 128) 0

/-- The shortest prefix that ends in a byte without a continuation bit. -/
def shortestTerminated : Bytes → Option Bytes
  | [] => none
  | byte :: rest =>
    if byte.toNat < 128 then some [byte] else (shortestTerminated rest).map (byte :: ·)

theorem base128_concat (bytes : Bytes) (byte : UInt8) :
    base128 (bytes ++ [byte]) = base128 bytes * 128 + byte.toNat % 128 :=
  foldl_append

theorem base128_lt (bytes : Bytes) : base128 bytes < 128 ^ bytes.length := by
  induction bytes using reverseRecOn with
  | nil => exact Nat.one_pos
  | append_singleton bytes byte ih =>
    rw [base128_concat, length_append, length_singleton, pow_succ]
    omega

theorem base128_cons (byte : UInt8) (bytes : Bytes) :
    base128 (byte :: bytes) = byte.toNat % 128 * 128 ^ bytes.length + base128 bytes := by
  induction bytes using reverseRecOn with
  | nil => simp [base128]
  | append_singleton bytes last ih =>
    rw [← cons_append, base128_concat, ih, base128_concat, length_append, length_singleton,
      pow_succ]
    ring

/-! ## Bits -/

theorem continues_iff (byte : UInt8) : byte &&& 0x80 = 0 ↔ byte.toNat < 128 := by
  have hbits : ∀ i : Fin 256, UInt8.ofNat i &&& 0x80 = 0 ↔ i.val < 128 := by decide +kernel
  simpa using hbits ⟨byte.toNat, byte.toNat_lt⟩

theorem masked_iff {byte : UInt8} (h : 128 ≤ byte.toNat) :
    byte &&& varlenW64MsMask = 0x80 ↔ byte.toNat % 128 < 2 := by
  have hbits : ∀ i : Fin 256, 128 ≤ i.val →
      (UInt8.ofNat i &&& varlenW64MsMask = 0x80 ↔ i.val % 128 < 2) := by decide +kernel
  simpa using hbits ⟨byte.toNat, byte.toNat_lt⟩ h

/-- One turn of the loop multiplies by 128 and adds, modulo the size of the word. -/
theorem toNat_shift_or (acc : UInt64) (byte : UInt8) :
    (acc <<< 7 ||| (byte &&& 0x7f).toUInt64).toNat =
      (acc.toNat * 128 + byte.toNat % 128) % 2 ^ 64 := by
  have hlow : (byte &&& 0x7f).toNat = byte.toNat % 128 := by
    rw [UInt8.toNat_and]
    exact and_two_pow_sub_one_eq_mod byte.toNat 7
  have hhigh : (acc <<< 7).toNat = 2 ^ 7 * (acc.toNat % 2 ^ 57) := by
    rw [UInt64.toNat_shiftLeft]
    simp only [UInt64.reduceToNat, reduceMod, shiftLeft_eq]
    omega
  rw [UInt64.toNat_or, UInt8.toNat_toUInt64, hlow, hhigh,
    ← two_pow_add_eq_or_of_lt (mod_lt _ (by decide))]
  omega

/-! ## The loop -/

/-- What the last turn of the loop looks at: the number exceeds the word exactly if it has ten bytes
and the first of them is too large. -/
theorem overflows_iff {done : Bytes} (hdone : ∀ b ∈ done, 128 ≤ b.toNat) (hlen : done.length < 10)
    (byte : UInt8) :
    done.length + 1 = maxVarlenBytes ∧ done.headD 0 &&& varlenW64MsMask ≠ 0x80 ↔
      2 ^ 64 ≤ base128 (done ++ [byte]) := by
  have hlt := base128_lt (done ++ [byte])
  rw [length_append, length_singleton] at hlt
  by_cases hten : done.length + 1 = 10
  · cases done with
    | nil => cases hten
    | cons first done =>
    rw [forall_mem_cons] at hdone
    have hrest := base128_lt (done ++ [byte])
    have hlength : (done ++ [byte]).length = 9 := by simpa using hten
    rw [hlength] at hrest
    rw [cons_append, base128_cons, hlength, headD_cons, Ne, masked_iff hdone.1]
    constructor
    · rintro ⟨-, hfirst⟩
      omega
    · exact fun hle => ⟨hten, by omega⟩
  · have hnine : 128 ^ (done.length + 1) ≤ 128 ^ 9 := Nat.pow_le_pow_right (by decide) (by omega)
    exact iff_of_false (fun h => hten h.1) (by omega)

/-- The loop after the bytes `done`, none of which was the last. -/
theorem varlenLoop_eq (rest : Bytes) : ∀ (done : Bytes) (acc : UInt64),
    (∀ b ∈ done, 128 ≤ b.toNat) → acc.toNat = base128 done % 2 ^ 64 →
    done.length + rest.length ≤ 10 →
    (varlenLoop done.length (done.headD 0) acc rest).toOption.map (fun r => (r.1.toNat, r.2)) =
      ((shortestTerminated rest).filter fun p => base128 (done ++ p) < 2 ^ 64).map
        fun p => (base128 (done ++ p), done.length + p.length) := by
  induction rest with
  | nil => exact fun _ _ _ _ _ => rfl
  | cons byte rest ih =>
    intro done acc hdone hacc hlen
    rw [length_cons] at hlen
    have hword := toNat_shift_or acc byte
    rw [hacc, add_mod, mod_mul_mod, ← add_mod, ← base128_concat] at hword
    rw [varlenLoop, shortestTerminated]
    simp only [Ne, continues_iff]
    by_cases hlast : byte.toNat < 128
    · rw [if_pos hlast, if_pos hlast,
        if_neg fun h : ¬byte.toNat < 128 ∧ done.headD 0 = 0 => h.1 hlast,
        if_congr (overflows_iff hdone (by omega) byte) rfl rfl]
      by_cases hfits : base128 (done ++ [byte]) < 2 ^ 64
      · rw [if_neg (Nat.not_le.2 hfits), Option.filter_some, if_pos (decide_eq_true hfits)]
        rw [mod_eq_of_lt hfits] at hword
        exact congrArg (fun v => some (v, done.length + 1)) hword
      · rw [if_pos (Nat.not_lt.1 hfits), Option.filter_some, if_neg (by simpa using hfits)]
        rfl
    · have hfirst : (if ¬byte.toNat < 128 ∧ done.headD 0 = 0 then byte else done.headD 0) =
          (done ++ [byte]).headD 0 := by
        cases done with
        | nil => exact if_pos ⟨hlast, rfl⟩
        | cons first done =>
          refine if_neg fun h => ?_
          have hcont := hdone first mem_cons_self
          rw [show first = 0 from h.2] at hcont
          exact absurd hcont (by decide)
      have hall := forall_mem_append.2 ⟨hdone, forall_mem_singleton.2 (Nat.not_lt.1 hlast)⟩
      have hrest := ih _ _ hall hword (by rw [length_append, length_singleton]; omega)
      rw [length_append, length_singleton, ← hfirst] at hrest
      rw [if_neg hlast, if_neg hlast, hrest]
      cases shortestTerminated rest with
      | none => rfl
      | some p => simp [Option.filter_some, Nat.add_assoc, Nat.add_comm 1]

/-- The decoder returns the number of the shortest prefix without a continuation bit at its end, and
its length. It fails exactly if there is none among the first ten bytes, or if the number does not
fit a word. -/
theorem decodeVarlen_exact (data : Bytes) :
    (decodeVarlen data).toOption.map (fun r => (r.1.toNat, r.2)) =
      ((shortestTerminated (data.take 10)).filter (base128 · < 2 ^ 64)).map
        fun p => (base128 p, p.length) := by
  cases data with
  | nil => rfl
  | cons byte data =>
    have hloop := varlenLoop_eq ((byte :: data).take 10) [] 0 (fun b hb => absurd hb not_mem_nil)
      rfl (by simp)
    simpa [decodeVarlen, maxVarlenBytes] using hloop

end Dugite.Mempack
