import AgentLedger.Address
import AgentLedger.Amount
import AgentLedger.Error
import AgentLedger.Json.Record
import AgentLedger.SortedMap

namespace AgentLedger

/-!
# Wire texts

A type has a wire text if it has a form as a JSON value and can be read back from it. Numbers are
read within the range of their type; bytes are written as hexadecimal digits and addresses as text.
-/

class Wire (α : Type) where
  toJson : α → Json
  ofJson? : Json → Option α

namespace Wire

variable {α κ : Type}

def encode [Wire α] (a : α) : Bytes := (toJson a).render

def decode? [Wire α] (bs : Bytes) : Option α := (Json.parse? bs).bind ofJson?

/-- The digest of a wire text. -/
def hash [Wire α] (a : α) : Hash256 := .ofData (encode a)

/-- Reads an operand or a payload. -/
def decodeOperand [Wire α] (bs : Bytes) : Except ChainError α :=
  match decode? bs with
  | some a => .ok a
  | none => .error (.invalidOperation .malformedPayload)

def natBelow? (bound : Nat) (v : Json) : Option Nat :=
  v.nat?.bind fun n => if n < bound then some n else none

instance : Wire UInt8 := ⟨fun n => .ofInt n.toNat, fun v => (natBelow? UInt8.size v).map .ofNat⟩

instance : Wire UInt32 := ⟨fun n => .ofInt n.toNat, fun v => (natBelow? UInt32.size v).map .ofNat⟩

instance : Wire UInt64 := ⟨fun n => .ofInt n.toNat, fun v => (natBelow? UInt64.size v).map .ofNat⟩

instance : Wire Int64 where
  toJson i := .ofInt i.toInt
  ofJson? v := v.int?.bind fun i =>
    if Int64.minValue.toInt ≤ i ∧ i ≤ Int64.maxValue.toInt then some (.ofInt i) else none

instance : Wire Amount := ⟨fun a => .ofInt a.units, fun v => v.nat?.bind Amount.ofNat?⟩

instance : Wire Bool := ⟨.bool, Json.bool?⟩

instance : Wire String := ⟨.ofText, Json.text?⟩

instance : Wire Address := ⟨fun a => .ofText a.text, fun v => v.text?.bind Address.ofText?⟩

def hash256? : Json → Option Hash256
  | .text ds => Hash256.ofDigits? ds
  | _ => none

instance : Wire Hash256 := ⟨fun h => .ofHex h.bytes, hash256?⟩

instance [Wire α] : Wire (List α) := ⟨fun l => .array (l.map toJson), Json.list? ofJson?⟩

instance [Wire α] : Wire (Option α) where
  toJson
    | none => .null
    | some a => toJson a
  ofJson? := Json.nullable ofJson?

/-! ## Maps -/

/-- A key of a map, which is written as a text. -/
class Key (κ : Type) where
  text : κ → String
  ofText? : String → Option κ

instance : Key String := ⟨id, some⟩

instance : Key Address := ⟨Address.text, Address.ofText?⟩

def entry? [Key κ] [Wire α] (member : String × Json) : Option (κ × α) := do
  let k ← Key.ofText? member.1
  let a ← ofJson? member.2
  return (k, a)

def map? [Ord κ] [Std.TransOrd κ] [Std.LawfulEqOrd κ] [Key κ] [Wire α] :
    Json → Option (SortedMap κ α)
  | .object members => do
      let named ← Json.namedMembers? members
      let entries ← named.mapM entry?
      return .ofList entries
  | _ => none

instance [Ord κ] [Std.TransOrd κ] [Std.LawfulEqOrd κ] [Key κ] [Wire α] :
    Wire (SortedMap κ α) where
  toJson m := .record (m.entries.map fun e => (Key.text e.1, toJson e.2))
  ofJson? := map?

end Wire

end AgentLedger
