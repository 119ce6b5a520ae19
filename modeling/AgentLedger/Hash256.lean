import AgentLedger.Bytes.Hex
import AgentLedger.Sha2

namespace AgentLedger

/-!
# Digests

A digest has 32 bytes. Digests are ordered by their bytes and written as 64 digits.
-/

structure Hash256 where
  bytes : Bytes
  length_bytes : bytes.length = 32
deriving DecidableEq, Repr

namespace Hash256

@[ext] theorem ext {a b : Hash256} (h : a.bytes = b.bytes) : a = b := by
  cases a
  cases b
  cases h
  rfl

def zero : Hash256 := ⟨List.replicate 32 0, by simp⟩

instance : Inhabited Hash256 := ⟨zero⟩
instance : Ord Hash256 := ⟨fun a b => compare a.bytes b.bytes⟩

instance : Std.TransOrd Hash256 := inferInstanceAs (Std.TransCmp (compareOn bytes))

instance : Std.LawfulEqOrd Hash256 where
  eq_of_compare h := ext (Std.compare_eq_iff_eq.1 h)
  compare_self := Std.compare_eq_iff_eq (α := Bytes).2 rfl

/-- The SHA-256 digest of a byte string. -/
def ofData (bs : Bytes) : Hash256 := ⟨Sha2.sha256.digest bs, by simp⟩

def isZero (h : Hash256) : Bool := h = zero

def ofBytes? (bs : Bytes) : Option Hash256 := if h : bs.length = 32 then some ⟨bs, h⟩ else none

@[simp] theorem ofBytes?_bytes (h : Hash256) : ofBytes? h.bytes = some h := by
  simp [ofBytes?, h.length_bytes]

def text (h : Hash256) : String := Hex.text h.bytes

instance : ToString Hash256 := ⟨text⟩

/-- Reads exactly 64 digits. -/
def ofDigits? (ds : Bytes) : Option Hash256 :=
  match Hex.readExact 32 ds with
  | .ok bs => ofBytes? bs
  | .error _ => none

theorem ofDigits?_encode (h : Hash256) : ofDigits? (Hex.encode h.bytes) = some h := by
  simp [ofDigits?, Hex.readExact_encode h.length_bytes]

end Hash256

end AgentLedger
