namespace AgentLedger

/-!
# Byte strings

Digest inputs, wire texts and contract code are lists of bytes. Numbers enter a byte string with a
fixed width, so that a number of that width can be read back.
-/

abbrev Bytes := List UInt8

namespace Bytes

/-! ## The lowest byte first -/

def littleEndian : (width n : Nat) → Bytes
  | 0, _ => []
  | w + 1, n => UInt8.ofNat n :: littleEndian w (n / 256)

def ofLittleEndian : Bytes → Nat
  | [] => 0
  | b :: bs => b.toNat + 256 * ofLittleEndian bs

/-- How many numbers have a given width. -/
def span : Nat → Nat
  | 0 => 1
  | w + 1 => 256 * span w

@[simp] theorem littleEndian_zero (n : Nat) : littleEndian 0 n = [] := rfl

@[simp] theorem ofLittleEndian_nil : ofLittleEndian [] = 0 := rfl

@[simp] theorem ofLittleEndian_cons (b : UInt8) (bs : Bytes) :
    ofLittleEndian (b :: bs) = b.toNat + 256 * ofLittleEndian bs := rfl

@[simp] theorem length_littleEndian (w n : Nat) : (littleEndian w n).length = w := by
  induction w generalizing n with
  | zero => rfl
  | succ w ih => simp [littleEndian, ih]

@[simp] theorem ofLittleEndian_littleEndian (w n : Nat) :
    ofLittleEndian (littleEndian w n) = n % span w := by
  induction w generalizing n with
  | zero => simp [span, Nat.mod_one]
  | succ w ih =>
      rw [littleEndian, ofLittleEndian_cons, ih, span, Nat.mod_mul]
      simp

/-! ## The highest byte first -/

/-- The lowest `width` bytes of a number, the highest of them first. -/
def bigEndian (width n : Nat) : Bytes := (littleEndian width n).reverse

/-- The number that a byte string spells, its highest byte first. -/
def toNat (bs : Bytes) : Nat := ofLittleEndian bs.reverse

@[simp] theorem length_bigEndian (w n : Nat) : (bigEndian w n).length = w := by simp [bigEndian]

@[simp] theorem toNat_bigEndian (w n : Nat) : toNat (bigEndian w n) = n % span w := by
  simp [bigEndian, toNat]

end Bytes

end AgentLedger
