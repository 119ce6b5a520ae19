import AgentLedger.Json.Record
import AgentLedger.Proofs.Bytes.Texts
import AgentLedger.Proofs.Json.Values

namespace AgentLedger

/-!
# Written values are texts

The bytes that a value is written as are a text if the strings in it are texts. Whatever is escaped
is a character of one byte, and the other characters are written as they are.
-/

open Utf8 (IsText)

namespace Decimal

theorem lt_of_mem_values {n d : Nat} (mem : d ∈ values n) : d < 10 := by
  induction n using Nat.strongRecOn with
  | ind n ih =>
      by_cases small : n < 10
      · rw [values_of_lt small, List.mem_singleton] at mem
        rwa [mem]
      · rw [values_of_ge (Nat.le_of_not_lt small), List.mem_append, List.mem_singleton] at mem
        rcases mem with mem | rfl
        · exact ih (n / 10) (by omega) mem
        · exact Nat.mod_lt n (by decide)

theorem digit_lt {d : Nat} (h : d < 10) : digit d < 128 := by
  have all : ∀ d < 10, digit d < 128 := by decide
  exact all d h

theorem isText_map_digit {ds : List Nat} (each : ∀ d ∈ ds, d < 10) : IsText (ds.map digit) := by
  refine Utf8.isText_of_ascii fun b mem => ?_
  obtain ⟨d, memd, rfl⟩ := List.mem_map.1 mem
  exact digit_lt (each d memd)

theorem isText_digits (n : Nat) : IsText (digits n) :=
  isText_map_digit fun _ mem => lt_of_mem_values mem

end Decimal

namespace Json

theorem Numeral.isText_spell {n : Numeral} (readable : n.Readable) : IsText n.spell := by
  have sign (negative : Prop) [Decidable negative] : IsText (if negative then [45] else []) := by
    split
    · exact Utf8.isText_of_all (by decide)
    · exact Utf8.isText_nil
  have point : IsText [46] := Utf8.isText_of_all (by decide)
  have mark : IsText [101] := Utf8.isText_of_all (by decide)
  have fraction : IsText (if n.fraction = [] then [] else 46 :: n.fraction.map Decimal.digit) := by
    split
    · exact Utf8.isText_nil
    · exact Utf8.isText_append point (Decimal.isText_map_digit readable)
  refine Utf8.isText_append (Utf8.isText_append (Utf8.isText_append (sign _)
    (Decimal.isText_digits _)) fraction) ?_
  cases n.exponent with
  | none => exact Utf8.isText_nil
  | some e =>
      exact Utf8.isText_append (Utf8.isText_append mark (sign _)) (Decimal.isText_digits _)

theorem all_escapeByte {b : UInt8} (ascii : b < 128) : (escapeByte b).all fun c => c < 128 := by
  have all : ∀ n < 128, (escapeByte (UInt8.ofNat n)).all fun c => c < 128 := by decide
  have escaped := all b.toNat (UInt8.lt_iff_toNat_lt.1 ascii)
  rwa [UInt8.ofNat_toNat] at escaped

theorem escapeByte_of_le {b : UInt8} (high : 128 ≤ b) : escapeByte b = [b] := by
  have other (c : UInt8) (low : c < 128) : b ≠ c := by
    rintro rfl
    exact UInt8.not_le.2 low high
  have printable : ¬ b < 32 := fun low => UInt8.not_le.2 (UInt8.lt_trans low (by decide)) high
  simp [escapeByte, other, printable]

/-- Escaping leaves a text a text, for it does so with each character. -/
theorem isText_flatMap_escapeByte (s : String) : IsText ((Utf8.encode s).flatMap escapeByte) := by
  rw [Utf8.encode_eq_flatMap, List.flatMap_assoc]
  refine Utf8.isText_flatMap fun c _ => ?_
  rcases Utf8.utf8EncodeChar_cases c with ⟨single, ascii⟩ | high
  · rw [single, List.flatMap_singleton]
    refine Utf8.isText_of_all (all_escapeByte ?_)
    rw [UInt8.lt_iff_toNat_lt, UInt8.toNat_ofNat_of_lt' (Nat.lt_trans ascii (by decide))]
    exact ascii
  · have kept : (String.utf8EncodeChar c).flatMap escapeByte = String.utf8EncodeChar c := by
      rw [List.flatMap_congr fun b mem => escapeByte_of_le (high b mem), List.flatMap_singleton']
    rw [kept]
    exact Utf8.isText_utf8EncodeChar c

def Token.Textual : Token → Prop
  | text bs => IsText bs
  | _ => True

/-- The strings in the value are texts. -/
def Textual (v : Json) : Prop := ∀ t ∈ v.tokens, t.Textual

theorem Token.isText_spell {t : Token} (readable : t.Readable) (textual : t.Textual) :
    IsText t.spell := by
  cases t with
  | number n => exact Numeral.isText_spell readable
  | text bs =>
      obtain ⟨s, rfl⟩ := textual
      have quote : IsText [34] := Utf8.isText_of_all (by decide)
      exact Utf8.isText_append (Utf8.isText_append quote (isText_flatMap_escapeByte s)) quote
  | bool b => cases b <;> exact Utf8.isText_of_all (by decide)
  | _ => exact Utf8.isText_of_all (by decide)

theorem isText_render {v : Json} (readable : v.Readable) (textual : v.Textual) : IsText v.render :=
  Utf8.isText_flatMap fun t mem => Token.isText_spell (readable t mem) (textual t mem)

/-! ## Values whose strings are texts -/

theorem textual_text {bs : Bytes} (h : IsText bs) : (text bs).Textual :=
  List.forall_mem_singleton.2 h

theorem textual_ofText (s : String) : (ofText s).Textual := textual_text ⟨s, rfl⟩

theorem textual_number (n : Numeral) : (number n).Textual := List.forall_mem_singleton.2 trivial

theorem textual_ofHex (bs : Bytes) : (ofHex bs).Textual :=
  textual_text ⟨Hex.text bs, Hex.encode_text bs⟩

theorem textual_array {items : List Json} (each : ∀ v ∈ items, v.Textual) :
    (array items).Textual := forall_mem_tokens_array trivial trivial trivial each

theorem textual_record {fields : List (String × Json)} (each : ∀ f ∈ fields, f.2.Textual) :
    (record fields).Textual := by
  refine forall_mem_tokens_object trivial trivial trivial trivial (fun m mem => ?_) fun m mem => ?_
  · obtain ⟨f, _, rfl⟩ := List.mem_map.1 mem
    exact ⟨f.1, rfl⟩
  · obtain ⟨f, memf, rfl⟩ := List.mem_map.1 mem
    exact each f memf

end Json

end AgentLedger
