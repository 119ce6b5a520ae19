import AgentLedger.Bytes

namespace AgentLedger.Utf8

/-!
# Text as bytes

A text is sent as its UTF-8 bytes. A byte string is a text only if it is well-formed UTF-8, so
reading can fail and writing cannot.
-/

def encode (s : String) : Bytes := s.toUTF8.data.toList

def decode? (bs : Bytes) : Option String := String.fromUTF8? ⟨bs.toArray⟩

theorem fromUTF8?_toUTF8 (s : String) : String.fromUTF8? s.toUTF8 = some s := by
  unfold String.fromUTF8?
  exact dif_pos s.isValidUTF8

@[simp] theorem decode?_encode (s : String) : decode? (encode s) = some s := by
  have whole : (⟨(encode s).toArray⟩ : ByteArray) = s.toUTF8 := by simp [encode]
  rw [decode?, whole, fromUTF8?_toUTF8]

theorem encode_injective {s t : String} (h : encode s = encode t) : s = t := by
  simpa using congrArg decode? h

theorem encode_append (s t : String) : encode (s ++ t) = encode s ++ encode t := by
  unfold encode String.toUTF8
  rw [String.toByteArray_append]
  simp

/-- The text whose characters have the given bytes as their code points. -/
def latin1 (bs : Bytes) : String := String.ofList (bs.map fun b => Char.ofNat b.toNat)

theorem encode_singleton {b : UInt8} (ascii : b < 128) :
    encode (String.ofList [Char.ofNat b.toNat]) = [b] := by
  have all : ∀ n, n < 128 → encode (String.ofList [Char.ofNat n]) = [UInt8.ofNat n] := by decide
  simpa using all b.toNat (UInt8.lt_iff_toNat_lt.1 ascii)

theorem encode_latin1 {bs : Bytes} (ascii : ∀ b ∈ bs, b < 128) : encode (latin1 bs) = bs := by
  induction bs with
  | nil => rfl
  | cons b rest ih =>
      rw [List.forall_mem_cons] at ascii
      have split : latin1 (b :: rest) = String.ofList [Char.ofNat b.toNat] ++ latin1 rest := by
        simp [latin1]
      rw [split, encode_append, encode_singleton ascii.1, ih ascii.2, List.singleton_append]

end AgentLedger.Utf8
