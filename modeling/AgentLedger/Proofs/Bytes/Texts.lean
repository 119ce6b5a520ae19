import AgentLedger.Bytes.Utf8

namespace AgentLedger.Utf8

/-!
# Bytes of texts

A text is a list of characters, and its bytes are those of its characters in turn. A character is
one byte below 128, or it has several bytes, none of which is below 128.
-/

theorem encode_eq_flatMap (t : String) : encode t = t.toList.flatMap String.utf8EncodeChar := by
  have whole : (String.ofList t.toList).toByteArray = t.toList.utf8Encode :=
    String.toByteArray_ofList
  rw [String.ofList_toList] at whole
  rw [encode, String.toUTF8, whole, List.utf8Encode, List.data_toByteArray]

/-- A character is one byte below 128, or it has no byte below 128. -/
theorem utf8EncodeChar_cases (c : Char) :
    String.utf8EncodeChar c = [UInt8.ofNat c.toNat] ∧ c.toNat < 128 ∨
      ∀ b ∈ String.utf8EncodeChar c, 128 ≤ b := by
  by_cases ascii : c.toNat < 128
  · exact .inl ⟨if_pos (Nat.le_of_lt_succ ascii), ascii⟩
  · refine .inr fun b mem => ?_
    have high (n lead : Nat) (small : n < 256 - lead) (least : 128 ≤ lead) :
        128 ≤ UInt8.ofNat (n + lead) := by
      rw [UInt8.le_iff_toNat_le, UInt8.toNat_ofNat_of_lt' (by change n + lead < 256; omega)]
      exact Nat.le_trans least (Nat.le_add_left _ _)
    have long : ¬ c.val.toNat ≤ 127 := fun le => ascii (Nat.lt_succ_of_le le)
    rw [String.utf8EncodeChar, if_neg long] at mem
    split at mem
    · simp only [List.mem_cons, List.not_mem_nil, or_false] at mem
      rcases mem with rfl | rfl
      · exact high _ _ (by omega) (by omega)
      · exact high _ _ (by omega) (by omega)
    · split at mem
      · simp only [List.mem_cons, List.not_mem_nil, or_false] at mem
        rcases mem with rfl | rfl | rfl
        · exact high _ _ (by omega) (by omega)
        · exact high _ _ (by omega) (by omega)
        · exact high _ _ (by omega) (by omega)
      · simp only [List.mem_cons, List.not_mem_nil, or_false] at mem
        rcases mem with rfl | rfl | rfl | rfl
        · exact high _ _ (by omega) (by omega)
        · exact high _ _ (by omega) (by omega)
        · exact high _ _ (by omega) (by omega)
        · exact high _ _ (by omega) (by omega)

/-- A byte below 128 is a character. -/
theorem eq_cons_of_flatMap {cs : List Char} {b : UInt8} {rest : Bytes} (ascii : b < 128)
    (h : cs.flatMap String.utf8EncodeChar = b :: rest) :
    ∃ tail, cs = Char.ofNat b.toNat :: tail ∧ tail.flatMap String.utf8EncodeChar = rest := by
  cases cs with
  | nil => cases h
  | cons c tail =>
      rw [List.flatMap_cons] at h
      rcases utf8EncodeChar_cases c with ⟨single, small⟩ | high
      · rw [single, List.singleton_append] at h
        obtain ⟨rfl, rfl⟩ := List.cons.inj h
        refine ⟨tail, ?_, rfl⟩
        rw [UInt8.toNat_ofNat_of_lt' (Nat.lt_trans small (by decide)), Char.ofNat_toNat]
      · cases encoded : String.utf8EncodeChar c with
        | nil => exact absurd encoded (String.utf8EncodeChar_ne_nil)
        | cons d more =>
            rw [encoded, List.cons_append] at h
            obtain ⟨rfl, _⟩ := List.cons.inj h
            refine absurd (high d ?_) (UInt8.not_le.2 ascii)
            rw [encoded]
            exact List.mem_cons_self

/-! ## Bytes that are a text -/

def IsText (bs : Bytes) : Prop := ∃ s, encode s = bs

theorem isText_nil : IsText [] := ⟨"", rfl⟩

theorem isText_append {bs cs : Bytes} (hb : IsText bs) (hc : IsText cs) : IsText (bs ++ cs) := by
  obtain ⟨s, rfl⟩ := hb
  obtain ⟨t, rfl⟩ := hc
  exact ⟨s ++ t, encode_append s t⟩

theorem isText_flatMap {α : Type} {f : α → Bytes} {l : List α} (each : ∀ a ∈ l, IsText (f a)) :
    IsText (l.flatMap f) := by
  induction l with
  | nil => exact isText_nil
  | cons a rest ih =>
      rw [List.forall_mem_cons] at each
      exact isText_append each.1 (ih each.2)

theorem isText_of_ascii {bs : Bytes} (ascii : ∀ b ∈ bs, b < 128) : IsText bs :=
  ⟨latin1 bs, encode_latin1 ascii⟩

theorem isText_of_all {bs : Bytes} (ascii : bs.all fun b => b < 128) : IsText bs :=
  isText_of_ascii fun b mem => of_decide_eq_true (List.all_eq_true.1 ascii b mem)

theorem isText_utf8EncodeChar (c : Char) : IsText (String.utf8EncodeChar c) := by
  refine ⟨String.ofList [c], ?_⟩
  rw [encode_eq_flatMap, String.toList_ofList, List.flatMap_singleton]

end AgentLedger.Utf8
