import AgentLedger.Proofs.Address.Digits
import AgentLedger.Proofs.Wire.Lawful

namespace AgentLedger.Address

/-!
# Texts of an address

A text is that of an address if, but for one leading `0x`, it is 40 digits of either case. The text
that is written has `0x` and lower-case digits, so writing what has been read brings a text into its
canonical form.
-/

/-- The characters of a text without one leading `0x`. -/
def stem (t : String) : List Char :=
  match t.toList with
  | '0' :: 'x' :: rest => rest
  | cs => cs

/-- What a text without its prefix is read from. -/
theorem digits_eq (t : String) : digits t = (stem t).flatMap String.utf8EncodeChar := by
  have zero : String.utf8EncodeChar '0' = [48] := rfl
  have x : String.utf8EncodeChar 'x' = [120] := rfl
  rw [digits, Utf8.encode_eq_flatMap, stem]
  generalize t.toList = cs
  split
  · next rest encoded =>
    obtain ⟨afterZero, rfl, encodedRest⟩ := Utf8.eq_cons_of_flatMap (by decide) encoded
    obtain ⟨afterPrefix, rfl, encodedStem⟩ := Utf8.eq_cons_of_flatMap (by decide) encodedRest
    exact encodedStem.symm
  · next other =>
    split
    · next rest =>
      refine absurd ?_ (other (rest.flatMap String.utf8EncodeChar))
      rw [List.flatMap_cons, List.flatMap_cons, zero, x]
      rfl
    · rfl

section Reading

variable {t : String} {a : Address} {fault : Hex.Fault}

theorem encode_stem (t : String) : Utf8.encode (String.ofList (stem t)) = digits t := by
  rw [Utf8.encode_eq_flatMap, String.toList_ofList, digits_eq]

theorem read_eq_ok : read t = .ok a ↔ Hex.Spells (stem t) a.bytes := by
  rw [read, digits_eq]
  constructor
  · intro h
    cases exact : Hex.readExact 20 ((stem t).flatMap String.utf8EncodeChar) with
    | error fault =>
        rw [exact] at h
        cases h
    | ok bs =>
        obtain ⟨length, spelled⟩ := Hex.readExact_eq_ok.1 exact
        have built : (⟨bs, length⟩ : Address) = a := by
          rw [exact] at h
          exact Except.ok.inj ((dif_pos length).symm.trans h)
        rw [← built]
        exact spelled
  · intro spelled
    rw [Hex.readExact_eq_ok.2 ⟨a.length_bytes, spelled⟩]
    exact dif_pos a.length_bytes

theorem read_eq_error : read t = .error fault ↔ Hex.Misspelt 20 (digits t) fault := by
  rw [← Hex.readExact_eq_error, read]
  cases exact : Hex.readExact 20 (digits t) with
  | error _ =>
      exact ⟨fun h => congrArg _ (Except.error.inj h), fun h => congrArg _ (Except.error.inj h)⟩
  | ok bs =>
      rw [digits_eq] at exact
      have length := (Hex.readExact_eq_ok.1 exact).1
      constructor
      · intro h
        cases (dif_pos length).symm.trans h
      · intro h
        cases h

theorem parse_eq_ok : parse t = .ok a ↔ Hex.Spells (stem t) a.bytes := by
  rw [← read_eq_ok, parse]
  cases read t with
  | ok _ => exact ⟨fun h => congrArg _ (Except.ok.inj h), fun h => congrArg _ (Except.ok.inj h)⟩
  | error fault => exact ⟨nofun, nofun⟩

theorem parse_eq_error {e : ChainError} :
    parse t = .error e ↔ ∃ fault, e = .invalidOperation (.badAddress t fault) ∧
      Hex.Misspelt 20 (Utf8.encode (String.ofList (stem t))) fault := by
  simp only [encode_stem, ← read_eq_error]
  rw [parse]
  cases read t with
  | ok _ => exact ⟨nofun, nofun⟩
  | error fault =>
      constructor
      · rintro ⟨rfl⟩
        exact ⟨fault, rfl, rfl⟩
      · rintro ⟨_, rfl, ⟨rfl⟩⟩
        rfl

/-- No digits start with `0x`, so they are left as they are. -/
theorem stem_of_spells {cs : List Char} {bs : Bytes} (h : Hex.Spells cs bs) :
    stem (String.ofList cs) = cs := by
  rw [stem, String.toList_ofList]
  split
  · cases h with
    | cons _ low _ => exact absurd rfl low.ne_x
  · rfl

end Reading

theorem spells_text (a : Address) : Hex.Spells (stem a.text) a.bytes := read_eq_ok.1 a.read_text

/-- A text of an address is 40 digits after at most one `0x`. Of any other text it is reported that
the number of its bytes is odd, or else that it is not 40, or else which byte is the first that is
no digit. What is written is read back, with `0x` and without it, and it is the canonical form of
every text that it is read from; so maps by address are read back as well. -/
theorem parse_grammar :
    (∀ t a, parse t = .ok a ↔ (stem t).length = 40 ∧ Hex.Spells (stem t) a.bytes) ∧
    (∀ t e, parse t = .error e ↔ ∃ fault, e = .invalidOperation (.badAddress t fault) ∧
      Hex.Misspelt 20 (Utf8.encode (String.ofList (stem t))) fault) ∧
    (∀ a, parse a.text = .ok a ∧ parse (String.ofList (stem a.text)) = .ok a) ∧
    (∀ t a, parse t = .ok a →
      a.text = "0x" ++ String.ofList ((stem t).map Char.toLower) ∧ parse a.text = parse t) ∧
    (∀ t, Wire.Key.ofText? t = (parse t).toOption) ∧
    ∀ (α : Type) [Wire α] [Wire.Lawful α] (m : SortedMap Address α),
      Wire.decode? (Wire.encode m) = some m := by
  have written (a : Address) : parse a.text = .ok a := parse_eq_ok.2 a.spells_text
  refine ⟨fun t a => ?_, fun t e => parse_eq_error, fun a => ⟨written a, ?_⟩,
    fun t a read => ⟨?_, ?_⟩, fun t => ?_, fun α _ _ m => Wire.decode?_encode m⟩
  · rw [parse_eq_ok]
    constructor
    · intro spelled
      refine ⟨?_, spelled⟩
      rw [spelled.length_eq, a.length_bytes]
    · rintro ⟨_, spelled⟩
      exact spelled
  · rw [parse_eq_ok, stem_of_spells a.spells_text]
    exact a.spells_text
  · rw [← (parse_eq_ok.1 read).toList_text, String.ofList_toList]
    rfl
  · rw [written, read]
  · change (read t).toOption = _
    rw [parse]
    cases read t with
    | ok _ => rfl
    | error _ => rfl

/-- Upper-case digits are read and come back in lower case. In a second prefix, `x` is no digit. -/
theorem parse_grammar_mixed_case :
    let mixed := "00112233445566778899AABBccddeeFF00112233"
    let doubled := "0x0x112233445566778899aabbccddeeff00112233"
    (∃ a, parse mixed = .ok a ∧ a.text = "0x00112233445566778899aabbccddeeff00112233") ∧
      parse doubled = .error (.invalidOperation (.badAddress doubled (.badDigit 120 1))) := by
  intro mixed doubled
  obtain ⟨-, refused, -, canonical, -⟩ := parse_grammar
  constructor
  · have accepted : (parse mixed).toOption.isSome := by decide +kernel
    cases read : parse mixed with
    | error e =>
        rw [read] at accepted
        cases accepted
    | ok a =>
        refine ⟨a, rfl, (canonical mixed a read).1.trans ?_⟩
        decide
  · refine (refused doubled _).2 ⟨_, rfl, .badDigit (by decide) ⟨by decide, ?_, ?_⟩⟩
    · rw [Hex.isDigit_iff]
      rintro ⟨n, value⟩
      cases value
    · intro j lt d found
      obtain rfl : j = 0 := Nat.lt_one_iff.1 lt
      have zero : (Utf8.encode (String.ofList (stem doubled)))[0]? = some 48 := by decide
      obtain rfl : 48 = d := Option.some.inj (zero.symm.trans found)
      exact Hex.isDigit_iff.2 ⟨0, rfl⟩

end AgentLedger.Address
