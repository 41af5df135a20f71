import Dugite.Primitives.Bytes

/-!
# Cryptographic primitives

The third-party primitives are fields of `Crypto`: the two Blake2b hashes, the ECVRF verifier on a
32-byte key and an 80-byte proof, strict Ed25519 verification on a 32-byte key and a 64-byte
signature, and Sum6 KES verification. They are functions of their bytes and nothing more is assumed
of them; an output of the VRF has 64 bytes by its type. The wrappers around them (`verifyVrfProof`,
`ed25519Verify`, `kesVerifyBytes`) are the code of the crypto crate with its length checks.
-/

namespace Dugite

inductive VrfError where
  | invalidProof (reason : String)
  | invalidPublicKey
  | verificationFailed
  deriving DecidableEq

/-- The error's display text. -/
def VrfError.text : VrfError → String
  | .invalidProof reason => "Invalid VRF proof: " ++ reason
  | .invalidPublicKey => "Invalid VRF public key"
  | .verificationFailed => "VRF verification failed"

structure Crypto where
  blake2b224 : Bytes → Hash28
  blake2b256 : Bytes → Hash32
  /-- Key, proof, seed. -/
  vrfVerify : Bytes → Bytes → Bytes → Except VrfError (Vector UInt8 64)
  /-- Key, message, signature; false also when the key is no valid point. -/
  ed25519VerifyStrict : Bytes → Bytes → Bytes → Bool
  /-- Hot key, period, signature, message; false also when the signature does not parse. -/
  sum6KesVerify : Bytes → Nat → Bytes → Bytes → Bool

namespace Crypto

/-- Hashes that are the number their bytes denote, and signatures that repeat the message: for
examples. -/
def plain : Crypto where
  blake2b224 bytes := BitVec.ofNat 224 (ofBeBytes bytes)
  blake2b256 bytes := BitVec.ofNat 256 (ofBeBytes bytes)
  vrfVerify _ _ _ := .error .verificationFailed
  ed25519VerifyStrict _ message signature := signature = message
  sum6KesVerify _ _ _ _ := false

variable (P : Crypto)

/-- `blake2b_224_tagged`: the hash of a script under the tag of its language. -/
def blake2b224Tagged (tag : UInt8) (bytes : Bytes) : Hash28 := P.blake2b224 (tag :: bytes)

def verifyVrfProof (vrfVkey proof seed : Bytes) : Except VrfError (Vector UInt8 64) :=
  if vrfVkey.length ≠ 32 then .error .invalidPublicKey
  else if proof.length ≠ 80 then
    .error (.invalidProof ("expected 80 bytes, got " ++ toString proof.length))
  else P.vrfVerify vrfVkey proof seed

/-- `PaymentVerificationKey::from_bytes` followed by `verify`. -/
def ed25519Verify (vkey message signature : Bytes) : Bool :=
  decide (vkey.length = 32) && decide (signature.length = 64) &&
    P.ed25519VerifyStrict vkey message signature

def kesVerifyBytes (hotVkey : Bytes) (period : Nat) (signature message : Bytes) : Bool :=
  P.sum6KesVerify hotVkey period signature message

/-! ## VRF seeds

Slot first, epoch nonce second. TPraos separates the leader seed from the nonce seed by an
exclusive or with a tag, which is the hash of 1 or 0 as a 64-bit number. -/

section
variable (epochNonce : Hash32) (slot : Nat)

def vrfInput : Bytes := Hash32.toBytes (P.blake2b256 (beBytes 8 slot ++ epochNonce.toBytes))

def tpraosVrfInput (tag : Hash32) : Bytes :=
  Hash32.toBytes (P.blake2b256 (beBytes 8 slot ++ epochNonce.toBytes) ^^^ tag)

def tpraosLeaderVrfInput : Bytes := P.tpraosVrfInput epochNonce slot (P.blake2b256 (beBytes 8 1))

def tpraosNonceVrfInput : Bytes := P.tpraosVrfInput epochNonce slot (P.blake2b256 (beBytes 8 0))

end

/-- Praos leader value: the hash of the output under the domain tag `L`. -/
def vrfLeaderValue (vrfOutput : Bytes) : Bytes := Hash32.toBytes (P.blake2b256 (0x4c :: vrfOutput))

end Crypto

/-- What the cold key signs in an operational certificate: raw bytes, no CBOR. -/
def ocertSignableBytes (kesVkey : Bytes) (sequenceNumber kesPeriod : Nat) : Bytes :=
  kesVkey ++ beBytes 8 sequenceNumber ++ beBytes 8 kesPeriod

end Dugite
