import AgentLedger.Address
import AgentLedger.Ed25519.Curve
import AgentLedger.Error

namespace AgentLedger.Ed25519

/-!
# Keys and signatures

A private key is any 32 bytes, and a public key is the encoding of a point. A signature is accepted
if its scalar is below the order of the group and the point that follows from it and the message has
exactly the encoding that the signature begins with.
-/

structure PrivateKey where
  bytes : Bytes
  length_bytes : bytes.length = 32

structure PublicKey where
  /-- The encoding as it was given. -/
  bytes : Bytes
  point : Point
  decompress?_bytes : Point.decompress? bytes = some point

structure Signature where
  bytes : Bytes
  length_bytes : bytes.length = 64

/-- A digest of 64 bytes as a scalar. -/
def hashScalar (bs : Bytes) : Nat := (Sha2.sha512.digest bs).ofLittleEndian % groupOrder

def challenge (commitment publicKey message : Bytes) : Nat :=
  hashScalar (commitment ++ publicKey ++ message)

namespace PrivateKey

def ofBytes (bs : Bytes) : Except KeyFault PrivateKey :=
  if h : bs.length = 32 then .ok ⟨bs, h⟩ else .error .privateKey

def expanded (k : PrivateKey) : Bytes := Sha2.sha512.digest k.bytes

/-- Sets bit 254 and clears the bits above it and the lowest three. -/
def clamp (n : Nat) : Nat :=
  let high := Point.signBit / 2
  high + n % high / 8 * 8

def scalar (k : PrivateKey) : Nat := clamp (Bytes.ofLittleEndian (k.expanded.take 32))

def publicBytes (k : PrivateKey) : Bytes := (Point.base.multiple k.scalar).compress

def address (k : PrivateKey) : Address := .ofPublicKey k.publicBytes

/-- Signs with a nonce that depends on the key and the message only. -/
def sign (k : PrivateKey) (message : Bytes) : Signature :=
  let r := hashScalar (k.expanded.drop 32 ++ message)
  let commitment := (Point.base.multiple r).compress
  let s := (r + challenge commitment k.publicBytes message * k.scalar) % groupOrder
  ⟨commitment ++ Bytes.littleEndian 32 s, by simp [commitment]⟩

end PrivateKey

namespace Signature

def ofBytes (bs : Bytes) : Except KeyFault Signature :=
  if h : bs.length = 64 then .ok ⟨bs, h⟩ else .error .signature

def commitment (s : Signature) : Bytes := s.bytes.take 32

def scalar (s : Signature) : Nat := Bytes.ofLittleEndian (s.bytes.drop 32)

end Signature

namespace PublicKey

def ofBytes (bs : Bytes) : Except KeyFault PublicKey :=
  match h : Point.decompress? bs with
  | some point => .ok ⟨bs, point, h⟩
  | none => .error .publicKey

def address (k : PublicKey) : Address := .ofPublicKey k.bytes

def verify (k : PublicKey) (s : Signature) (message : Bytes) : Bool :=
  let c := challenge s.commitment k.bytes message
  s.scalar < groupOrder &&
    ((Point.base.multiple s.scalar).add (k.point.neg.multiple c)).compress = s.commitment

end PublicKey

end AgentLedger.Ed25519
