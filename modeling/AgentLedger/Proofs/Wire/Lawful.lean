import AgentLedger.Proofs.Json.Values
import AgentLedger.Wire.Basic

namespace AgentLedger

/-!
# Wire texts are read back

Every value of a lawful type is read back from its wire text. Numbers, texts, addresses and
digests are lawful, and lists and maps of lawful types are.
-/

namespace Json

theorem readable_ofInt (i : Int) : (ofInt i).Readable := readable_number (Numeral.readable_ofInt i)

@[simp] theorem readable_ofHex (bs : Bytes) : (ofHex bs).Readable := readable_text (Hex.encode bs)

theorem readable_record {fields : List (String × Json)} (each : ∀ f ∈ fields, f.2.Readable) :
    (record fields).Readable := by
  refine readable_object fun m mem => ?_
  obtain ⟨f, memf, rfl⟩ := List.mem_map.1 mem
  exact each f memf

/-- A record that was written is read from the fields as they were written. -/
theorem bind_record? {α : Type} {names : List String} {fields : List (String × Json)}
    {next : Record → Option α} {a : α} (distinct : names.all (occursAtMostOnce fields))
    (read : next ⟨false, fields⟩ = some a) :
    (record? names (record fields)).bind next = some a := by
  rw [record?_record distinct, Option.bind_some, read]

-- Fields whose names are known are told apart by computing.
attribute [simp] occursAtMostOnce Record.lookup Record.required Record.defaulted

theorem mapM_map {α β : Type} {read : β → Option α} {write : α → β} {l : List α}
    (h : ∀ a ∈ l, read (write a) = some a) : (l.map write).mapM read = some l := by
  induction l with
  | nil => rfl
  | cons a rest ih =>
      rw [List.forall_mem_cons] at h
      simp [h.1, ih h.2]

end Json

namespace Wire

variable {α κ : Type}

/-- Values are read back from their JSON form, and the numerals in it are in order. -/
class Lawful (α : Type) [Wire α] : Prop where
  ofJson?_toJson (a : α) : ofJson? (toJson a) = some a
  readable_toJson (a : α) : (toJson a).Readable

export Lawful (ofJson?_toJson readable_toJson)

attribute [simp] ofJson?_toJson readable_toJson

@[simp] theorem decode?_encode [Wire α] [Lawful α] (a : α) : decode? (encode a) = some a := by
  rw [decode?, encode, Json.parse?_render (readable_toJson a), Option.bind_some, ofJson?_toJson]

theorem toJson_injective [Wire α] [Lawful α] {a b : α} (h : toJson a = toJson b) : a = b := by
  have read : (ofJson? (toJson a) : Option α) = ofJson? (toJson b) := congrArg ofJson? h
  rw [ofJson?_toJson, ofJson?_toJson] at read
  exact Option.some.inj read

theorem encode_injective [Wire α] [Lawful α] {a b : α} (h : encode a = encode b) : a = b := by
  have read : (decode? (encode a) : Option α) = decode? (encode b) := congrArg decode? h
  rw [decode?_encode, decode?_encode] at read
  exact Option.some.inj read

/-- What is not written as `null` is not taken for the absence of a value. -/
theorem ofJson?_some [Wire α] [Lawful α] {a : α} (h : toJson a ≠ .null) :
    (ofJson? (toJson a) : Option (Option α)) = some (some a) := by
  have read := ofJson?_toJson a
  change Json.nullable ofJson? (toJson a) = some (some a)
  cases written : toJson a with
  | null => exact absurd written h
  | _ =>
      rw [written] at read
      exact congrArg (Option.map some) read

/-! ## Numbers -/

theorem map_natBelow? {ofNat : Nat → α} {bound n : Nat} {a : α} (lt : n < bound)
    (back : ofNat n = a) : (natBelow? bound (.ofInt n)).map ofNat = some a := by
  simp [natBelow?, lt, back]

instance : Lawful UInt8 where
  ofJson?_toJson n := map_natBelow? n.toNat_lt UInt8.ofNat_toNat
  readable_toJson n := Json.readable_ofInt n.toNat

instance : Lawful UInt32 where
  ofJson?_toJson n := map_natBelow? n.toNat_lt UInt32.ofNat_toNat
  readable_toJson n := Json.readable_ofInt n.toNat

instance : Lawful UInt64 where
  ofJson?_toJson n := map_natBelow? n.toNat_lt UInt64.ofNat_toNat
  readable_toJson n := Json.readable_ofInt n.toNat

instance : Lawful Int64 where
  ofJson?_toJson i := by
    have inside : Int64.minValue.toInt ≤ i.toInt ∧ i.toInt ≤ Int64.maxValue.toInt :=
      ⟨i.minValue_le_toInt, i.toInt_le⟩
    change (Json.int? (.ofInt i.toInt)).bind _ = some i
    rw [Json.int?_ofInt, Option.bind_some, if_pos inside, Int64.ofInt_toInt]
  readable_toJson i := Json.readable_ofInt i.toInt

instance : Lawful Amount where
  ofJson?_toJson a := by
    change (Json.nat? (.ofInt a.units)).bind Amount.ofNat? = some a
    simp
  readable_toJson a := Json.readable_ofInt a.units

/-! ## Texts -/

instance : Lawful Bool where
  ofJson?_toJson _ := rfl
  readable_toJson := Json.readable_bool

instance : Lawful String where
  ofJson?_toJson := Json.text?_ofText
  readable_toJson s := Json.readable_text (Utf8.encode s)

instance : Lawful Address where
  ofJson?_toJson a := by
    change (Json.text? (.ofText a.text)).bind Address.ofText? = some a
    simp
  readable_toJson a := Json.readable_text (Utf8.encode a.text)

instance : Lawful Hash256 where
  ofJson?_toJson := Hash256.ofDigits?_encode
  readable_toJson h := Json.readable_text (Hex.encode h.bytes)

/-! ## Lists and maps -/

instance [Wire α] [Lawful α] : Lawful (List α) where
  ofJson?_toJson l := Json.mapM_map fun a _ => ofJson?_toJson a
  readable_toJson l := by
    refine Json.readable_array fun v mem => ?_
    obtain ⟨a, _, rfl⟩ := List.mem_map.1 mem
    exact readable_toJson a

class LawfulKey (κ : Type) [Key κ] : Prop where
  ofText?_text (k : κ) : Key.ofText? (Key.text k) = some k

instance : LawfulKey String := ⟨fun _ => rfl⟩

instance : LawfulKey Address := ⟨Address.ofText?_text⟩

section

variable [Ord κ] [Std.TransOrd κ] [Std.LawfulEqOrd κ] [Key κ] [LawfulKey κ] [Wire α] [Lawful α]

/-- Entries are read back in whatever order they stand. -/
theorem ofJson?_entries (entries : List (κ × α)) :
    (ofJson? (.record (entries.map fun e => (Key.text e.1, toJson e.2))) :
      Option (SortedMap κ α)) = some (.ofList entries) := by
  have read : (entries.map fun e => (Key.text e.1, toJson e.2)).mapM entry? = some entries := by
    refine Json.mapM_map fun e _ => ?_
    simp [ entry?, LawfulKey.ofText?_text]
  change ((Json.namedMembers? (Json.namedMembers _)).bind _) = some _
  rw [Json.namedMembers?_namedMembers, Option.bind_some]
  change (Option.bind (List.mapM entry? _) _) = some _
  rw [read]
  rfl

instance : Lawful (SortedMap κ α) where
  ofJson?_toJson m := (ofJson?_entries m.entries).trans (congrArg some m.ofList_entries)
  readable_toJson m := by
    refine Json.readable_record fun f mem => ?_
    obtain ⟨e, _, rfl⟩ := List.mem_map.1 mem
    exact readable_toJson e.2

end

end Wire

end AgentLedger
