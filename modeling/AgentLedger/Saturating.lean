namespace AgentLedger.Saturating

/-!
# Saturating arithmetic

A sum that does not fit stops at the nearest number that does.
-/

def int64 (i : Int) : Int64 := .ofInt (max (-0x8000000000000000) (min i 0x7FFFFFFFFFFFFFFF))

def uint64 (n : Nat) : UInt64 := .ofNat (min n 0xFFFFFFFFFFFFFFFF)

def addInt64 (a b : Int64) : Int64 := int64 (a.toInt + b.toInt)

def addUInt64 (a b : UInt64) : UInt64 := uint64 (a.toNat + b.toNat)

theorem toInt_int64 (i : Int) :
    (int64 i).toInt = max (-0x8000000000000000) (min i 0x7FFFFFFFFFFFFFFF) := by
  rw [int64, Int64.toInt_ofInt_of_le] <;> omega

theorem toNat_uint64 (n : Nat) : (uint64 n).toNat = min n 0xFFFFFFFFFFFFFFFF := by
  rw [uint64, UInt64.toNat_ofNat']
  omega

end AgentLedger.Saturating
