import AgentLedger.Bytes.Utf8

namespace AgentLedger.Hex

/-!
# Hexadecimal digits

Bytes are written as two lower-case digits each, the high half first. Reading takes either case
and names the first thing that is wrong: an odd number of digits, then a wrong length, then the
first character that is no digit.
-/

def digit (n : Nat) : UInt8 := if n < 10 then UInt8.ofNat (48 + n) else UInt8.ofNat (87 + n)

def encode (bs : Bytes) : Bytes := bs.flatMap fun b => [digit (b.toNat / 16), digit (b.toNat % 16)]

def text (bs : Bytes) : String := Utf8.latin1 (encode bs)

inductive Fault where
  | oddLength
  | wrongLength
  | badDigit (byte : UInt8) (index : Nat)
deriving DecidableEq, Repr

def value? (b : UInt8) : Option Nat :=
  if 48 ≤ b && b ≤ 57 then some (b.toNat - 48)
  else if 97 ≤ b && b ≤ 102 then some (b.toNat - 87)
  else if 65 ≤ b && b ≤ 70 then some (b.toNat - 55)
  else none

def nibble (b : UInt8) (index : Nat) : Except Fault Nat :=
  match value? b with
  | some n => .ok n
  | none => .error (.badDigit b index)

/-- Reads pairs of digits; `index` is the place of the first of them in the whole text. -/
def readPairs (index : Nat) : Bytes → Except Fault Bytes
  | hi :: lo :: rest => do
      let h ← nibble hi index
      let l ← nibble lo (index + 1)
      let bs ← readPairs (index + 2) rest
      return UInt8.ofNat (16 * h + l) :: bs
  | [_] => .error .oddLength
  | [] => .ok []

def read (ds : Bytes) : Except Fault Bytes :=
  if ds.length % 2 = 0 then readPairs 0 ds else .error .oddLength

/-- Reads exactly `n` bytes. -/
def readExact (n : Nat) (ds : Bytes) : Except Fault Bytes :=
  if ds.length % 2 ≠ 0 then .error .oddLength
  else if ds.length ≠ 2 * n then .error .wrongLength
  else readPairs 0 ds

def decode? (ds : Bytes) : Option Bytes := (read ds).toOption

/-! ## Naming a bad digit -/

/-- Characters up to U+00FF that have no visible form of their own. -/
def unprintable (b : UInt8) : Bool := b < 32 || (127 ≤ b && b ≤ 160) || b = 173

/-- The byte as a quoted character with the code point of the byte. -/
def quoted (b : UInt8) : String :=
  let inside :=
    if b = 0 then "\\0"
    else if b = 9 then "\\t"
    else if b = 10 then "\\n"
    else if b = 13 then "\\r"
    else if b = 39 then "\\'"
    else if b = 92 then "\\\\"
    else if unprintable b then "\\u\x7b" ++ String.ofList (Nat.toDigits 16 b.toNat) ++ "\x7d"
    else Utf8.latin1 [b]
  "'" ++ inside ++ "'"

def Fault.message : Fault → String
  | .oddLength => "Odd number of digits"
  | .wrongLength => "Invalid string length"
  | .badDigit b i => "Invalid character " ++ quoted b ++ " at position " ++ toString i

/-! ## Reading what was written -/

theorem value?_digit {n : Nat} (h : n < 16) : value? (digit n) = some n := by
  have all : ∀ n, n < 16 → value? (digit n) = some n := by decide
  exact all n h

theorem nibble_digit {n : Nat} (h : n < 16) (index : Nat) : nibble (digit n) index = .ok n := by
  simp [nibble, value?_digit h]

@[simp] theorem length_encode (bs : Bytes) : (encode bs).length = 2 * bs.length := by
  induction bs with
  | nil => rfl
  | cons b bs ih =>
      simp only [encode, List.flatMap_cons, List.length_append] at ih ⊢
      simp [ih]
      omega

theorem readPairs_encode (bs : Bytes) (index : Nat) : readPairs index (encode bs) = .ok bs := by
  induction bs generalizing index with
  | nil => rfl
  | cons b bs ih =>
      have lt := b.toNat_lt
      have rest : readPairs (index + 2) (List.flatMap
          (fun b => [digit (b.toNat / 16), digit (b.toNat % 16)]) bs) = .ok bs := ih _
      have whole : 16 * (b.toNat / 16) + b.toNat % 16 = b.toNat := by omega
      simp only [encode, List.flatMap_cons, List.cons_append, List.nil_append, readPairs]
      rw [nibble_digit (by omega), nibble_digit (by omega), rest]
      simp [bind, Except.bind, pure, Except.pure, whole]

@[simp] theorem read_encode (bs : Bytes) : read (encode bs) = .ok bs := by
  simp [read, readPairs_encode]

@[simp] theorem decode?_encode (bs : Bytes) : decode? (encode bs) = some bs := by
  simp [decode?, Except.toOption]

theorem readExact_encode {n : Nat} {bs : Bytes} (h : bs.length = n) :
    readExact n (encode bs) = .ok bs := by
  simp [readExact, readPairs_encode, h]

theorem digit_lt {n : Nat} (h : n < 16) : digit n < 128 := by
  have all : ∀ n, n < 16 → digit n < 128 := by decide
  exact all n h

@[simp] theorem encode_text (bs : Bytes) : Utf8.encode (text bs) = encode bs := by
  refine Utf8.encode_latin1 fun d mem => ?_
  obtain ⟨b, _, half⟩ := List.mem_flatMap.1 mem
  have lt := b.toNat_lt
  simp only [List.mem_cons, List.not_mem_nil, or_false] at half
  rcases half with rfl | rfl
  · exact digit_lt (by omega)
  · exact digit_lt (by omega)

end AgentLedger.Hex
