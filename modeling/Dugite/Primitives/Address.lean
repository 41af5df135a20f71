import Dugite.Lib.Checks
import Dugite.Primitives.Transaction

/-!
# Reading addresses

`Address::from_bytes`. The high nibble of the first byte is the address type, the low nibble the
network; a reward account is an address of type 14 (key) or 15 (script).
-/

namespace Dugite

open Checks

/-- The hash that a byte string denotes. -/
def Hash28.ofBytes (bytes : Bytes) : Hash28 := BitVec.ofNat 224 (ofBeBytes bytes)

inductive AddressError where
  | invalidHeader (header : UInt8)
  | tooShort
  deriving DecidableEq

/-- The error's display text. -/
def AddressError.text : AddressError → String
  | .invalidHeader header => "Invalid address header byte: 0x" ++ header.toBitVec.toHex
  | .tooShort => "Address too short"

def NetworkId.fromU8 : UInt8 → Option NetworkId
  | 0 => some .testnet
  | 1 => some .mainnet
  | _ => none

def decodeCredential (typeBit : UInt8) (bytes : Bytes) : Except AddressError Credential :=
  if bytes.length < 28 then .error .tooShort
  else match typeBit with
    | 0 => .ok (.verificationKey (Hash28.ofBytes (bytes.take 28)))
    | 1 => .ok (.script (Hash28.ofBytes (bytes.take 28)))
    | bit => .error (.invalidHeader bit)

/-- Seven bits a byte, most significant first, the last byte with its high bit clear. Returns the
number and the rest of the input. -/
def decodeVariableLength (result : Nat) : Bytes → Option (Nat × Bytes)
  | [] => none
  | byte :: rest =>
    let result := result * 2 ^ 7 % 2 ^ 64 + (byte &&& 0x7F).toNat
    if byte &&& 0x80 = 0 then some (result, rest) else decodeVariableLength result rest

def decodePointer (bytes : Bytes) : Except AddressError Pointer := do
  let (slot, rest) ← okOr .tooShort (decodeVariableLength 0 bytes)
  let (txIndex, rest) ← okOr .tooShort (decodeVariableLength 0 rest)
  let (certIndex, _) ← okOr .tooShort (decodeVariableLength 0 rest)
  return ⟨slot, txIndex, certIndex⟩

/-- The type nibble of an address header. -/
def addressType (header : UInt8) : UInt8 := (header >>> 4) &&& 0x0F

/-- The addresses behind a header that is none of the two Byron bytes. -/
def Address.fromHeader (header : UInt8) (bytes : Bytes) (network : NetworkId) :
    Except AddressError Address :=
  let body := bytes.tail
  let addrType := addressType header
  if addrType ≤ 0b0011 then do
    rejectIf (bytes.length < 57) .tooShort
    let payment ← decodeCredential (addrType &&& 1) (body.take 28)
    let stake ← decodeCredential ((addrType >>> 1) &&& 1) ((body.drop 28).take 28)
    return .base network payment stake
  else if addrType ≤ 0b0101 then do
    rejectIf (bytes.length < 29) .tooShort
    let payment ← decodeCredential (addrType &&& 1) (body.take 28)
    let pointer ← decodePointer (body.drop 28)
    return .pointer network payment pointer
  else if addrType ≤ 0b0111 then do
    rejectIf (bytes.length < 29) .tooShort
    let payment ← decodeCredential (addrType &&& 1) (body.take 28)
    return .enterprise network payment
  else if addrType = 0b1000 then return .byron ⟨bytes⟩
  else if addrType = 0b1110 ∨ addrType = 0b1111 then do
    rejectIf (bytes.length < 29) .tooShort
    let stake ← decodeCredential (addrType &&& 1) (body.take 28)
    return .reward network stake
  else .error (.invalidHeader header)

def Address.fromBytes (bytes : Bytes) : Except AddressError Address :=
  match bytes with
  | [] => .error .tooShort
  | header :: _ =>
    -- a Byron address is a CBOR array
    if header = 0x82 ∨ header = 0x83 then .ok (.byron ⟨bytes⟩)
    else do
      let network ← okOr (.invalidHeader header) (NetworkId.fromU8 (header &&& 0x0F))
      Address.fromHeader header bytes network

/-- What the checks of phase 1 take for the script of a withdrawal: bit 4 of the header of any key
that is long enough, whatever the rest of the header says. -/
def withdrawalScript (rewardAddr : Bytes) : Option Hash28 :=
  match rewardAddr with
  | [] => none
  | header :: body =>
    if rewardAddr.length < 29 then none
    else if header &&& 0x10 = 0 then none
    else some (Hash28.ofBytes (body.take 28))

/-! ## Reward addresses -/

theorem addressType_lowBit (header : UInt8) :
    addressType header &&& 1 = if header &&& 0x10 = 0 then 0 else 1 := by
  have h : ∀ n, addressType (UInt8.ofFin n) &&& 1 =
      if UInt8.ofFin n &&& 0x10 = 0 then 0 else 1 := by decide +kernel
  exact h header.toFin

variable {bytes : Bytes} {c : Credential} {net : NetworkId} {header : UInt8}

/-- A credential is read from exactly its hash. -/
theorem decodeCredential_eq_ok {bit : UInt8} (h : decodeCredential bit bytes = .ok c) :
    28 ≤ bytes.length ∧ ((bit = 0 ∧ c = .verificationKey (Hash28.ofBytes (bytes.take 28))) ∨
      (bit = 1 ∧ c = .script (Hash28.ofBytes (bytes.take 28)))) := by
  unfold decodeCredential at h
  split at h
  · cases h
  next hlen =>
  refine ⟨Nat.le_of_not_lt hlen, ?_⟩
  split at h
  · exact .inl ⟨rfl, (Except.ok.inj h).symm⟩
  · exact .inr ⟨rfl, (Except.ok.inj h).symm⟩
  · cases h

/-- The credential that a reward account of this header and hash belongs to. -/
def rewardCredential (header : UInt8) (hash : Hash28) : Credential :=
  if header &&& 0x10 = 0 then .verificationKey hash else .script hash

theorem rewardCredential_of_lowBit
    (h : decodeCredential (addressType header &&& 1) (bytes.take 28) = .ok c) :
    c = rewardCredential header (Hash28.ofBytes (bytes.take 28)) := by
  rw [addressType_lowBit] at h
  obtain ⟨-, hcases⟩ := decodeCredential_eq_ok h
  rw [List.take_take, Nat.min_self] at hcases
  unfold rewardCredential
  split at hcases
  · next hbit =>
    obtain ⟨-, rfl⟩ | ⟨hone, -⟩ := hcases
    · rw [if_pos hbit]
    · exact absurd hone (by decide)
  next hbit =>
  obtain ⟨hzero, -⟩ | ⟨-, rfl⟩ := hcases
  · exact absurd hzero (by decide)
  · rw [if_neg hbit]

/-- What a key that reads as a reward address looks like. -/
theorem fromHeader_eq_reward {network : NetworkId}
    (h : Address.fromHeader header bytes network = .ok (.reward net c)) :
    net = network ∧ 29 ≤ bytes.length ∧
      (addressType header = 0b1110 ∨ addressType header = 0b1111) ∧
      c = rewardCredential header (Hash28.ofBytes (bytes.tail.take 28)) := by
  unfold Address.fromHeader at h
  dsimp only at h
  split at h
  · simp [bind_eq_ok, pure, Except.pure] at h
  split at h
  · simp [bind_eq_ok, pure, Except.pure] at h
  split at h
  · simp [bind_eq_ok, pure, Except.pure] at h
  split at h
  · simp [pure, Except.pure] at h
  split at h
  · next htype =>
    obtain ⟨hlen, h⟩ := bind_unit_eq_ok.1 h
    obtain ⟨stake, hstake, h⟩ := bind_eq_ok.1 h
    obtain ⟨rfl, rfl⟩ := Address.reward.inj (Except.ok.inj h)
    exact ⟨rfl, by simpa using hlen, htype, rewardCredential_of_lowBit hstake⟩
  · cases h

theorem fromBytes_eq_reward (h : Address.fromBytes bytes = .ok (.reward net c)) :
    ∃ header body, bytes = header :: body ∧ 29 ≤ bytes.length ∧
      NetworkId.fromU8 (header &&& 0x0F) = some net ∧
      (addressType header = 0b1110 ∨ addressType header = 0b1111) ∧
      c = rewardCredential header (Hash28.ofBytes (body.take 28)) := by
  cases bytes with
  | nil => cases h
  | cons header body =>
  unfold Address.fromBytes at h
  dsimp only at h
  split at h
  · cases h
  · obtain ⟨network, hnet, h⟩ := bind_eq_ok.1 h
    obtain ⟨rfl, hlen, htype, hc⟩ := fromHeader_eq_reward h
    exact ⟨header, body, rfl, hlen, okOr_eq_ok.1 hnet, htype, hc⟩

/-- On a reward address phase 1 sees the script of the account's credential. -/
theorem withdrawalScript_of_reward
    (h : Address.fromBytes bytes = .ok (.reward net c)) : withdrawalScript bytes = c.scriptHash := by
  obtain ⟨header, body, rfl, hlen, -, -, rfl⟩ := fromBytes_eq_reward h
  unfold withdrawalScript rewardCredential
  dsimp only
  rw [if_neg (Nat.not_lt.2 hlen)]
  split
  · rfl
  · rfl

end Dugite
