import Mathlib.Tactic.Ring

/-!
# Bytes, hashes and 64-bit arithmetic

Byte strings are lists of bytes. A hash is a bit vector of its width; `toBytes` writes it big
endian, so that the order of two hashes as numbers is the order of their byte arrays.

A `u64` is a natural number, and the operations of the source that saturate at `u64::MAX` are
written with `satAdd` and `satSub`, a plain `+` of a release build with `wrapAdd`.
-/

namespace Dugite

open List Nat

abbrev Bytes := List UInt8

/-- A Blake2b-224 digest: key hashes, script hashes, pool ids. -/
abbrev Hash28 := BitVec 224

/-- A Blake2b-256 digest: header hashes, transaction ids, nonces. -/
abbrev Hash32 := BitVec 256

instance : LawfulBEq Hash32 := inferInstance

theorem Hash28.eq_of_toNat (a b : Hash28) : a.toNat = b.toNat → a = b := BitVec.eq_of_toNat_eq

theorem Hash32.eq_of_toNat (a b : Hash32) : a.toNat = b.toNat → a = b := BitVec.eq_of_toNat_eq

variable (w n : Nat)

/-- The `w` low bytes of `n`, most significant first (`to_be_bytes`). -/
def beBytes : Bytes := (range w).map fun i => UInt8.ofNat (n / 256 ^ (w - 1 - i))

/-- The number a byte string denotes, most significant byte first. -/
def ofBeBytes (bs : Bytes) : Nat := bs.foldl (fun acc b => acc * 256 + b.toNat) 0

def Hash28.toBytes (h : Hash28) : Bytes := beBytes 28 h.toNat

def Hash32.toBytes (h : Hash32) : Bytes := beBytes 32 h.toNat

/-- `u64::MAX`. -/
def u64Max : Nat := 2 ^ 64 - 1

variable (a b : Nat)

/-- `u64::saturating_add`. -/
def satAdd : Nat := min (a + b) u64Max

/-- `u64::saturating_sub`. -/
def satSub : Nat := a - b

/-- `+` on `u64`, which wraps in a release build. -/
def wrapAdd : Nat := (a + b) % 2 ^ 64

/-- `-` on `u64`, which wraps in a release build. -/
def wrapSub : Nat := (a + (2 ^ 64 - b % 2 ^ 64)) % 2 ^ 64

variable {a b : Nat}

theorem wrapAdd_of_le (h : a + b ≤ u64Max) : wrapAdd a b = a + b :=
  mod_eq_of_lt (by rw [u64Max] at h; omega)

theorem wrapSub_of_le (hle : b ≤ a) (ha : a ≤ u64Max) : wrapSub a b = a - b := by
  rw [u64Max] at ha
  rw [wrapSub]
  omega

@[simp] theorem beBytes_length : (beBytes w n).length = w := by
  simp [beBytes]

theorem beBytes_succ : beBytes (w + 1) n = UInt8.ofNat (n / 256 ^ w) :: beBytes w n := by
  simp only [beBytes, range_succ_eq_map, map_cons, map_map, Nat.sub_zero,
    Nat.add_sub_cancel, cons.injEq, true_and]
  refine map_congr_left fun i _ => ?_
  simp only [Function.comp_apply]
  congr 3
  omega

theorem ofBeBytes_foldl (bs : Bytes) (acc : Nat) :
    bs.foldl (fun acc b => acc * 256 + b.toNat) acc = acc * 256 ^ bs.length + ofBeBytes bs := by
  induction bs generalizing acc with
  | nil => simp [ofBeBytes]
  | cons b bs ih =>
    rw [ofBeBytes, foldl_cons, foldl_cons, ih, ih (0 * 256 + b.toNat), length_cons]
    ring

theorem ofBeBytes_cons (b : UInt8) (bs : Bytes) :
    ofBeBytes (b :: bs) = b.toNat * 256 ^ bs.length + ofBeBytes bs := by
  rw [ofBeBytes, foldl_cons, ofBeBytes_foldl]
  simp

/-- Writing a number in `w` bytes and reading it back keeps it modulo `256 ^ w`. -/
theorem ofBeBytes_beBytes : ofBeBytes (beBytes w n) = n % 256 ^ w := by
  induction w with
  | zero => simp [beBytes, ofBeBytes, mod_one]
  | succ w ih =>
    rw [beBytes_succ, ofBeBytes_cons, ih, beBytes_length, UInt8.toNat_ofNat']
    have hsplit : n % (256 ^ w * 256) = n % 256 ^ w + 256 ^ w * (n / 256 ^ w % 256) := mod_mul
    rw [pow_succ 256 w, hsplit]
    ring

theorem satAdd_of_le (h : a + b ≤ u64Max) : satAdd a b = a + b := min_eq_left h

end Dugite
