import AgentLedger.Amount
import AgentLedger.Hash256

namespace AgentLedger

/-!
# Digests of fields

What is hashed is a domain name followed by fields. A number has a fixed width, whatever has a
variable length carries its length in front, and an optional field starts with a flag, so that the
bytes of neighbouring fields cannot be confused.
-/

inductive Field where
  | u8 (v : UInt8)
  | u32 (v : UInt32)
  | u64 (v : UInt64)
  | i64 (v : Int64)
  | u128 (v : Amount)
  | bytes (bs : Bytes)
  | text (s : String)
  | optional (bs : Option Bytes)
deriving DecidableEq, Repr

namespace Field

/-- A byte string behind its length, which takes eight bytes. -/
def framed (bs : Bytes) : Bytes := Bytes.bigEndian 8 bs.length ++ bs

def encode : Field → Bytes
  | u8 v => [v]
  | u32 v => Bytes.bigEndian 4 v.toNat
  | u64 v => Bytes.bigEndian 8 v.toNat
  | i64 v => Bytes.bigEndian 8 v.toUInt64.toNat
  | u128 v => Bytes.bigEndian 16 v.units
  | bytes bs => framed bs
  | text s => framed (Utf8.encode s)
  | optional none => [0]
  | optional (some bs) => 1 :: framed bs

end Field

namespace Digest

def preimage (domain : String) (fields : List Field) : Bytes :=
  (Field.text domain).encode ++ fields.flatMap Field.encode

def hash (domain : String) (fields : List Field) : Hash256 := .ofData (preimage domain fields)

end Digest

end AgentLedger
