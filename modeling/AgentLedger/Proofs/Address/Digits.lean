import AgentLedger.Bytes.Hex
import AgentLedger.Proofs.Bytes.Texts

namespace AgentLedger.Hex

/-!
# Digits of a text

A reader of digits goes through the bytes of a text, not through its characters. The two agree
where a text is read, for a digit is one byte, and no byte of a character that takes several bytes
is a digit.
-/

/-- The character is the digit for a number, in either case. -/
def Digit (c : Char) (n : Nat) : Prop :=
  "0123456789abcdef".toList[n]? = some c ∨ "0123456789ABCDEF".toList[n]? = some c

instance (c : Char) (n : Nat) : Decidable (Digit c n) := inferInstanceAs (Decidable (_ ∨ _))

/-- The characters are two digits for each byte, the high half first. -/
inductive Spells : List Char → Bytes → Prop where
  | nil : Spells [] []
  | cons {hi lo : Char} {h l : Nat} {cs : List Char} {bs : Bytes} (high : Digit hi h)
      (low : Digit lo l) (rest : Spells cs bs) :
      Spells (hi :: lo :: cs) (UInt8.ofNat (16 * h + l) :: bs)

/-- The byte is a digit, taken as a character. -/
def IsDigit (b : UInt8) : Prop := ∃ n, Digit (Char.ofNat b.toNat) n

namespace Digit

variable {c : Char} {n : Nat}

theorem lt (h : Digit c n) : n < 16 := by
  rcases h with h | h
  · exact (List.getElem?_eq_some_iff.1 h).1
  · exact (List.getElem?_eq_some_iff.1 h).1

/-- What holds of the sixteen digits in either case holds of every digit. -/
theorem elim {P : Char → Nat → Prop} (all : ∀ n < 16,
      P ("0123456789abcdef".toList.getD n ' ') n ∧ P ("0123456789ABCDEF".toList.getD n ' ') n)
    (h : Digit c n) : P c n := by
  obtain ⟨lower, upper⟩ := all n h.lt
  rw [List.getD_eq_getElem?_getD] at lower upper
  rcases h with h | h
  · rwa [h, Option.getD_some] at lower
  · rwa [h, Option.getD_some] at upper

theorem encoded (h : Digit c n) : String.utf8EncodeChar c = [UInt8.ofNat c.toNat] :=
  h.elim (P := fun c _ => String.utf8EncodeChar c = [UInt8.ofNat c.toNat]) (by decide)

theorem value?_eq (h : Digit c n) : value? (UInt8.ofNat c.toNat) = some n :=
  h.elim (P := fun c n => value? (UInt8.ofNat c.toNat) = some n) (by decide)

theorem toLower (h : Digit c n) : c.toLower = Char.ofNat (digit n).toNat :=
  h.elim (P := fun c n => c.toLower = Char.ofNat (digit n).toNat) (by decide)

theorem ne_x (h : Digit c n) : c ≠ 'x' := h.elim (P := fun c _ => c ≠ 'x') (by decide)

end Digit

theorem lt_of_value? {b : UInt8} {n : Nat} (h : value? b = some n) : b < 103 := by
  rcases UInt8.lt_or_le b 103 with low | high
  · exact low
  · have outside (top : UInt8) (below : top < 103) : ¬ b ≤ top := fun le =>
      UInt8.not_lt.2 (UInt8.le_trans high le) below
    simp [value?, outside] at h

theorem digit_of_value? {b : UInt8} {n : Nat} (h : value? b = some n) :
    Digit (Char.ofNat b.toNat) n := by
  have all : ∀ k < 103, ∀ n ∈ value? (UInt8.ofNat k), Digit (Char.ofNat k) n := by decide
  have low : b.toNat < 103 := UInt8.lt_iff_toNat_lt.1 (lt_of_value? h)
  refine all b.toNat low n ?_
  rw [UInt8.ofNat_toNat]
  exact h

theorem isDigit_iff {b : UInt8} : IsDigit b ↔ ∃ n, value? b = some n := by
  have valid : b.toNat.isValidChar := .inl (Nat.lt_trans b.toNat_lt (by decide))
  have char : (Char.ofNat b.toNat).toNat = b.toNat := by
    rw [Char.ofNat, dif_pos valid]
    rfl
  constructor
  · rintro ⟨n, h⟩
    have value := h.value?_eq
    rw [char, UInt8.ofNat_toNat] at value
    exact ⟨n, value⟩
  · rintro ⟨n, h⟩
    exact ⟨n, digit_of_value? h⟩

/-! ## Reading what is spelled -/

namespace Spells

variable {cs : List Char} {bs : Bytes}

theorem length_eq (h : Spells cs bs) : cs.length = 2 * bs.length := by
  induction h with
  | nil => rfl
  | cons _ _ _ ih => simp only [List.length_cons, ih]; omega

theorem length_encoded (h : Spells cs bs) :
    (cs.flatMap String.utf8EncodeChar).length = 2 * bs.length := by
  induction h with
  | nil => rfl
  | cons high low _ ih =>
      simp only [List.flatMap_cons, high.encoded, low.encoded, List.singleton_append,
        List.length_cons, ih]
      omega

theorem readPairs (h : Spells cs bs) (index : Nat) :
    readPairs index (cs.flatMap String.utf8EncodeChar) = .ok bs := by
  induction h generalizing index with
  | nil => rfl
  | cons high low _ ih =>
      simp only [List.flatMap_cons, high.encoded, low.encoded, List.singleton_append, Hex.readPairs,
        nibble, high.value?_eq, low.value?_eq, ih]
      rfl

/-- The lower-case form is the one that is written. -/
theorem toList_text (h : Spells cs bs) : (text bs).toList = cs.map Char.toLower := by
  induction h with
  | nil => rfl
  | @cons hi lo a b cs bs high low _ ih =>
      have whole : (UInt8.ofNat (16 * a + b)).toNat = 16 * a + b :=
        UInt8.toNat_ofNat_of_lt' (by have := high.lt; have := low.lt; change _ < 256; omega)
      have first : (16 * a + b) / 16 = a := by have := low.lt; omega
      have second : (16 * a + b) % 16 = b := by have := low.lt; omega
      simp only [text, Utf8.latin1, String.toList_ofList, encode] at ih ⊢
      simp only [List.flatMap_cons, ih, whole, first, second, List.map_cons, high.toLower,
        low.toLower, List.cons_append, List.nil_append]

end Spells

theorem readPairs_cons_eq_ok {hi lo : UInt8} {index : Nat} {rest bs : Bytes}
    (h : readPairs index (hi :: lo :: rest) = .ok bs) :
    ∃ a b tail, value? hi = some a ∧ value? lo = some b ∧
      readPairs (index + 2) rest = .ok tail ∧ bs = UInt8.ofNat (16 * a + b) :: tail := by
  rw [readPairs, nibble, nibble] at h
  cases high : value? hi with
  | none =>
      rw [high] at h
      cases h
  | some a =>
      cases low : value? lo with
      | none =>
          rw [high, low] at h
          cases h
      | some b =>
          rw [high, low] at h
          cases read : readPairs (index + 2) rest with
          | error fault =>
              rw [read] at h
              cases h
          | ok tail =>
              rw [read] at h
              cases h
              exact ⟨a, b, tail, rfl, rfl, rfl, rfl⟩

theorem spells_of_readPairs {index : Nat} {ds bs : Bytes} {cs : List Char}
    (read : readPairs index ds = .ok bs) (encoded : cs.flatMap String.utf8EncodeChar = ds) :
    Spells cs bs := by
  induction index, ds using readPairs.induct generalizing cs bs with
  | case1 index hi lo rest ih =>
      obtain ⟨a, b, tail, high, low, readTail, rfl⟩ := readPairs_cons_eq_ok read
      have ascii {d : UInt8} {n : Nat} (h : value? d = some n) : d < 128 :=
        UInt8.lt_trans (lt_of_value? h) (by decide)
      obtain ⟨cs, rfl, encodedRest⟩ := Utf8.eq_cons_of_flatMap (ascii high) encoded
      obtain ⟨cs, rfl, encodedTail⟩ := Utf8.eq_cons_of_flatMap (ascii low) encodedRest
      exact .cons (digit_of_value? high) (digit_of_value? low) (ih readTail encodedTail)
  | case2 index b => cases read
  | case3 index =>
      cases read
      cases cs with
      | nil => exact .nil
      | cons c _ =>
          rw [List.flatMap_cons, List.append_eq_nil_iff] at encoded
          exact absurd encoded.1 String.utf8EncodeChar_ne_nil

theorem readExact_eq_ok {n : Nat} {cs : List Char} {bs : Bytes} :
    readExact n (cs.flatMap String.utf8EncodeChar) = .ok bs ↔ bs.length = n ∧ Spells cs bs := by
  constructor
  · intro h
    unfold readExact at h
    split at h
    · cases h
    · split at h
      · cases h
      · next length =>
        have spelled := spells_of_readPairs h rfl
        have same := spelled.length_encoded
        exact ⟨by omega, spelled⟩
  · rintro ⟨rfl, spelled⟩
    rw [readExact, spelled.length_encoded, if_neg (by omega), if_neg (by omega)]
    exact spelled.readPairs 0

/-! ## What is wrong -/

/-- The byte is the first that is no digit. -/
structure FirstBad (ds : Bytes) (b : UInt8) (i : Nat) : Prop where
  found : ds[i]? = some b
  bad : ¬ IsDigit b
  first : ∀ j < i, ∀ d, ds[j]? = some d → IsDigit d

/-- What is reported of bytes that are not the digits of `n` bytes. -/
inductive Misspelt (n : Nat) (ds : Bytes) : Fault → Prop where
  | oddLength (odd : ds.length % 2 = 1) : Misspelt n ds .oddLength
  | wrongLength (even : ds.length % 2 = 0) (other : ds.length ≠ 2 * n) : Misspelt n ds .wrongLength
  | badDigit {b : UInt8} {i : Nat} (length : ds.length = 2 * n) (bad : FirstBad ds b i) :
      Misspelt n ds (.badDigit b i)

theorem not_firstBad_nil {b : UInt8} {i : Nat} : ¬ FirstBad [] b i := fun h => nomatch h.found

theorem firstBad_cons_of_bad {a b : UInt8} {ds : Bytes} {i : Nat} (bad : ¬ IsDigit a) :
    FirstBad (a :: ds) b i ↔ a = b ∧ i = 0 := by
  constructor
  · intro h
    cases i with
    | zero => exact ⟨Option.some.inj h.found, rfl⟩
    | succ i => exact absurd (h.first 0 (Nat.succ_pos i) a rfl) bad
  · rintro ⟨rfl, rfl⟩
    exact ⟨rfl, bad, fun j lt => absurd lt (Nat.not_lt_zero j)⟩

theorem firstBad_cons_of_isDigit {a b : UInt8} {ds : Bytes} {i : Nat} (digit : IsDigit a) :
    FirstBad (a :: ds) b i ↔ ∃ k, i = k + 1 ∧ FirstBad ds b k := by
  constructor
  · intro h
    cases i with
    | zero =>
        obtain rfl : a = b := Option.some.inj h.found
        exact absurd digit h.bad
    | succ k =>
        refine ⟨k, rfl, h.found, h.bad, fun j lt d found => ?_⟩
        exact h.first (j + 1) (Nat.succ_lt_succ lt) d found
  · rintro ⟨k, rfl, h⟩
    refine ⟨h.found, h.bad, fun j lt d found => ?_⟩
    cases j with
    | zero =>
        obtain rfl : a = d := Option.some.inj found
        exact digit
    | succ j => exact h.first j (Nat.lt_of_succ_lt_succ lt) d found

theorem nibble_of_isDigit {b : UInt8} (digit : IsDigit b) :
    ∃ n, ∀ index, nibble b index = .ok n := by
  obtain ⟨n, value⟩ := isDigit_iff.1 digit
  refine ⟨n, fun index => ?_⟩
  rw [nibble, value]

theorem nibble_of_bad {b : UInt8} (bad : ¬ IsDigit b) (index : Nat) :
    nibble b index = .error (.badDigit b index) := by
  unfold nibble
  split
  · next n value => exact absurd (isDigit_iff.2 ⟨n, value⟩) bad
  · rfl

/-- After two digits, what is wrong is wrong with the rest. -/
theorem readPairs_after_digits {hi lo : UInt8} {index : Nat} {rest : Bytes} {fault : Fault}
    (high : IsDigit hi) (low : IsDigit lo) :
    readPairs index (hi :: lo :: rest) = .error fault ↔
      readPairs (index + 2) rest = .error fault := by
  obtain ⟨a, first⟩ := nibble_of_isDigit high
  obtain ⟨b, second⟩ := nibble_of_isDigit low
  rw [readPairs, first, second]
  cases readPairs (index + 2) rest with
  | ok tail =>
      constructor
      · rintro ⟨⟩
      · rintro ⟨⟩
  | error _ =>
      exact ⟨fun h => congrArg _ (Except.error.inj h), fun h => congrArg _ (Except.error.inj h)⟩

theorem readPairs_eq_error {index : Nat} {ds : Bytes} {fault : Fault} (even : ds.length % 2 = 0) :
    readPairs index ds = .error fault ↔
      ∃ b i, fault = .badDigit b (index + i) ∧ FirstBad ds b i := by
  induction index, ds using readPairs.induct with
  | case1 index hi lo rest ih =>
      have shorter : rest.length % 2 = 0 := by
        simp only [List.length_cons] at even
        omega
      by_cases high : IsDigit hi
      · simp only [firstBad_cons_of_isDigit high]
        by_cases low : IsDigit lo
        · simp only [firstBad_cons_of_isDigit low, readPairs_after_digits high low, ih shorter]
          have place (i : Nat) : index + 2 + i = index + (i + 1 + 1) := by omega
          constructor
          · rintro ⟨b, i, rfl, bad⟩
            exact ⟨b, i + 1 + 1, by rw [place], i + 1, rfl, i, rfl, bad⟩
          · rintro ⟨b, _, rfl, _, rfl, i, rfl, bad⟩
            exact ⟨b, i, by rw [place], bad⟩
        · obtain ⟨a, first⟩ := nibble_of_isDigit high
          rw [readPairs, first, nibble_of_bad low]
          simp only [firstBad_cons_of_bad low]
          constructor
          · rintro ⟨rfl⟩
            exact ⟨lo, 1, rfl, 0, rfl, rfl, rfl⟩
          · rintro ⟨_, _, rfl, _, rfl, rfl, rfl⟩
            rfl
      · rw [readPairs, nibble_of_bad high]
        simp only [firstBad_cons_of_bad high]
        constructor
        · rintro ⟨rfl⟩
          exact ⟨hi, 0, rfl, rfl, rfl⟩
        · rintro ⟨_, _, rfl, rfl, rfl⟩
          rfl
  | case2 index b => cases even
  | case3 index =>
      constructor
      · intro h
        cases h
      · rintro ⟨b, i, rfl, bad⟩
        exact absurd bad not_firstBad_nil

theorem readExact_eq_error {n : Nat} {ds : Bytes} {fault : Fault} :
    readExact n ds = .error fault ↔ Misspelt n ds fault := by
  unfold readExact
  split
  · next odd =>
    constructor
    · rintro ⟨rfl⟩
      exact .oddLength (by omega)
    · rintro (_ | ⟨even, _⟩ | ⟨length, _⟩)
      · rfl
      · exact absurd even odd
      · omega
  · next even =>
    split
    · next other =>
      constructor
      · rintro ⟨rfl⟩
        exact .wrongLength (by omega) other
      · rintro (odd | _ | ⟨length, _⟩)
        · omega
        · rfl
        · exact absurd length other
    · next length =>
      have length : ds.length = 2 * n := by omega
      rw [readPairs_eq_error (by omega)]
      constructor
      · rintro ⟨b, i, rfl, bad⟩
        rw [Nat.zero_add]
        exact .badDigit length bad
      · rintro (odd | ⟨_, other⟩ | ⟨_, bad⟩)
        · omega
        · exact absurd length other
        · exact ⟨_, _, by rw [Nat.zero_add], bad⟩

end AgentLedger.Hex
