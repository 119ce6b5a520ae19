import AgentLedger.Hash256

namespace AgentLedger

/-!
# Addresses

An address has 20 bytes. Its text is `0x` and 40 lower-case digits; reading also takes upper-case
digits and a text without `0x`.
-/

structure Address where
  bytes : Bytes
  length_bytes : bytes.length = 20
deriving DecidableEq, Repr

namespace Address

@[ext] theorem ext {a b : Address} (h : a.bytes = b.bytes) : a = b := by
  cases a
  cases b
  cases h
  rfl

def zero : Address := ⟨List.replicate 20 0, by simp⟩

instance : Inhabited Address := ⟨zero⟩
instance : Ord Address := ⟨fun a b => compare a.bytes b.bytes⟩

instance : Std.TransOrd Address := inferInstanceAs (Std.TransCmp (compareOn bytes))

instance : Std.LawfulEqOrd Address where
  eq_of_compare h := ext (Std.compare_eq_iff_eq.1 h)
  compare_self := Std.compare_eq_iff_eq (α := Bytes).2 rfl

def ofBytes? (bs : Bytes) : Option Address := if h : bs.length = 20 then some ⟨bs, h⟩ else none

/-- The last 20 bytes of the digest of a key. -/
def ofPublicKey (key : Bytes) : Address :=
  ⟨(Hash256.ofData key).bytes.drop 12, by simp [(Hash256.ofData key).length_bytes]⟩

def text (a : Address) : String := "0x" ++ Hex.text a.bytes

instance : ToString Address := ⟨text⟩

/-- The bytes of a text without one leading `0x`. -/
def digits (t : String) : Bytes :=
  match Utf8.encode t with
  | 48 :: 120 :: rest => rest
  | bs => bs

def read (t : String) : Except Hex.Fault Address := do
  let bs ← Hex.readExact 20 (digits t)
  if h : bs.length = 20 then .ok ⟨bs, h⟩ else .error .wrongLength

def ofText? (t : String) : Option Address := (read t).toOption

/-! ## Reading what was written -/

@[simp] theorem digits_text (a : Address) : digits a.text = Hex.encode a.bytes := by
  have lead : Utf8.encode "0x" = [48, 120] := rfl
  simp [digits, text, Utf8.encode_append, lead]

@[simp] theorem read_text (a : Address) : read a.text = .ok a := by
  rw [read, digits_text, Hex.readExact_encode a.length_bytes]
  exact dif_pos a.length_bytes

@[simp] theorem ofText?_text (a : Address) : ofText? a.text = some a := by
  simp [ofText?, Except.toOption]

end Address

end AgentLedger
