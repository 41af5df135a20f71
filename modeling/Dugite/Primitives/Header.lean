import Dugite.Primitives.Bytes

/-!
# Block headers and the bytes a KES key signs

`BlockHeader` has the fields that header validation reads. Every key, proof and signature is a byte
string of any length, as the decoder hands it over. `encodeBlockHeaderBody` is the CBOR encoding of
the header body, which is the signed message of a header that carries no wire bytes of its own.
-/

namespace Dugite

structure VrfOutput where
  output : Bytes
  proof : Bytes
  deriving DecidableEq

structure OperationalCert where
  hotVkey : Bytes
  sequenceNumber : Nat
  kesPeriod : Nat
  sigma : Bytes
  deriving DecidableEq

structure ProtocolVersion where
  major : Nat
  minor : Nat
  deriving DecidableEq

structure BlockHeader where
  headerHash : Hash32
  prevHash : Hash32
  issuerVkey : Bytes
  vrfVkey : Bytes
  vrfResult : VrfOutput
  blockNumber : Nat
  slot : Nat
  epochNonce : Hash32
  bodySize : Nat
  bodyHash : Hash32
  operationalCert : OperationalCert
  protocolVersion : ProtocolVersion
  (kesSignature nonceVrfOutput nonceVrfProof : Bytes)
  rawHeaderBody : Option Bytes
  deriving DecidableEq

/-- A position on the chain. -/
inductive Point where
  | origin
  | specific (slot : Nat) (hash : Hash32)
  deriving DecidableEq

structure Tip where
  point : Point
  blockNumber : Nat
  deriving DecidableEq

/-- A header is TPraos before protocol version 7, or when it carries a separate nonce VRF
certificate: the Vasil transition block has version 7 and still the old structure. -/
def BlockHeader.isTpraos (header : BlockHeader) : Bool :=
  header.protocolVersion.major < 7 || !header.nonceVrfProof.isEmpty

/-! ## CBOR -/

/-- A CBOR head with a 32-bit length at most, as `encode_bytes` and `encode_array_header` write it;
`base` is the major type in the high bits. -/
def encodeLengthHead (base : UInt8) (len : Nat) : Bytes :=
  if len < 24 then [base ||| UInt8.ofNat len]
  else if len < 256 then (base + 0x18) :: beBytes 1 len
  else if len < 65536 then (base + 0x19) :: beBytes 2 len
  else (base + 0x1a) :: beBytes 4 len

def encodeUint (value : Nat) : Bytes :=
  if value < 24 then [UInt8.ofNat value]
  else if value < 256 then 0x18 :: beBytes 1 value
  else if value < 65536 then 0x19 :: beBytes 2 value
  else if value < 4294967296 then 0x1a :: beBytes 4 value
  else 0x1b :: beBytes 8 value

def encodeBytes (data : Bytes) : Bytes := encodeLengthHead 0x40 data.length ++ data

def encodeArrayHeader (len : Nat) : Bytes := encodeLengthHead 0x80 len

def encodeNull : Bytes := [0xf6]

def encodeHash32 (hash : Hash32) : Bytes := 0x58 :: 32 :: hash.toBytes

def encodeOperationalCert (cert : OperationalCert) : Bytes :=
  encodeArrayHeader 4 ++ encodeBytes cert.hotVkey ++ encodeUint cert.sequenceNumber ++
    encodeUint cert.kesPeriod ++ encodeBytes cert.sigma

def encodeVrfResult (vrf : VrfOutput) : Bytes :=
  encodeArrayHeader 2 ++ encodeBytes vrf.output ++ encodeBytes vrf.proof

def encodeProtocolVersion (pv : ProtocolVersion) : Bytes :=
  encodeArrayHeader 2 ++ encodeUint pv.major ++ encodeUint pv.minor

/-- The header body that the KES key signs. The all-zero hash stands for "no previous block". -/
def encodeBlockHeaderBody (header : BlockHeader) : Bytes :=
  encodeArrayHeader 10 ++ encodeUint header.blockNumber ++ encodeUint header.slot ++
    (if header.prevHash = 0 then encodeNull else encodeHash32 header.prevHash) ++
    encodeBytes header.issuerVkey ++ encodeBytes header.vrfVkey ++
    encodeVrfResult header.vrfResult ++ encodeUint header.bodySize ++
    encodeHash32 header.bodyHash ++ encodeOperationalCert header.operationalCert ++
    encodeProtocolVersion header.protocolVersion

end Dugite
