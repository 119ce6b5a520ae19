import AgentLedger.Json.Value

namespace AgentLedger.Json

/-!
# Records

A record with named fields is written as an object whose members stand in the order of the fields.
It is read from an object with its members in any order, where members with other names are passed
over and a field may not occur twice, or from an array of its fields in order. The names of all
members have to be text. An array may end early if all fields that are missing have a default.
-/

structure Record where
  /-- Whether the fields were given by position. -/
  positional : Bool
  fields : List (String × Json)

def ofText (s : String) : Json := text (Utf8.encode s)

def text? : Json → Option String
  | text bs => Utf8.decode? bs
  | _ => none

/-- The members of an object, if all their keys are text. -/
def namedMembers? : List (Bytes × Json) → Option (List (String × Json))
  | [] => some []
  | (k, v) :: rest => do
      let name ← Utf8.decode? k
      let named ← namedMembers? rest
      return (name, v) :: named

def namedMembers (fields : List (String × Json)) : List (Bytes × Json) :=
  fields.map fun f => (Utf8.encode f.1, f.2)

def record (fields : List (String × Json)) : Json := object (namedMembers fields)

def occursAtMostOnce (fields : List (String × Json)) (name : String) : Bool :=
  (fields.filter fun f => f.1 = name).length ≤ 1

def record? (names : List String) : Json → Option Record
  | object members => do
      let fields ← namedMembers? members
      if names.all (occursAtMostOnce fields) then some ⟨false, fields⟩ else none
  | array items => if items.length ≤ names.length then some ⟨true, names.zip items⟩ else none
  | _ => none

namespace Record

variable {α : Type}

def lookup (r : Record) (name : String) : Option Json :=
  (r.fields.find? fun f => f.1 = name).map (·.2)

def required (r : Record) (name : String) (read : Json → Option α) : Option α :=
  (r.lookup name).bind read

def defaulted (r : Record) (name : String) (default : α) (read : Json → Option α) : Option α :=
  match r.lookup name with
  | some v => read v
  | none => some default

/-- A field that an object may leave out and an array may not. -/
def optional (r : Record) (name : String) (read : Json → Option α) : Option (Option α) :=
  match r.lookup name with
  | some v => (read v).map some
  | none => if r.positional then none else some none

end Record

/-- Reads `null` as the absence of a value. -/
def nullable {α : Type} (read : Json → Option α) : Json → Option (Option α)
  | null => some none
  | v => (read v).map some

def list? {α : Type} (read : Json → Option α) : Json → Option (List α)
  | array items => items.mapM read
  | _ => none

def bool? : Json → Option Bool
  | bool b => some b
  | _ => none

def int? : Json → Option Int
  | number n => n.toInt?
  | _ => none

def ofInt (i : Int) : Json := number (.ofInt i)

def nat? (v : Json) : Option Nat := v.int?.bind fun i => if i < 0 then none else some i.toNat

def ofHex (bs : Bytes) : Json := text (Hex.encode bs)

def hex? : Json → Option Bytes
  | text ds => Hex.decode? ds
  | _ => none

/-- Reads one of some names, either as a text or as the only member of an object, with `null`. -/
def oneOf? {α : Type} (choices : List (String × α)) : Json → Option α
  | text bs | object [(bs, null)] => (choices.find? fun c => Utf8.encode c.1 = bs).map (·.2)
  | _ => none

/-! ## Reading what was written -/

@[simp] theorem text?_ofText (s : String) : (ofText s).text? = some s := by simp [ofText, text?]

@[simp] theorem int?_ofInt (i : Int) : (ofInt i).int? = some i := by simp [ofInt, int?]

@[simp] theorem nat?_ofInt (n : Nat) : (ofInt n).nat? = some n := by
  have nonneg : ¬ (n : Int) < 0 := by omega
  simp [nat?, nonneg]

@[simp] theorem hex?_ofHex (bs : Bytes) : (ofHex bs).hex? = some bs := by simp [ofHex, hex?]

@[simp] theorem namedMembers?_namedMembers (fields : List (String × Json)) :
    namedMembers? (namedMembers fields) = some fields := by
  induction fields with
  | nil => rfl
  | cons f rest ih =>
      simp only [namedMembers, List.map_cons] at ih ⊢
      simp [namedMembers?, ih]

theorem record?_record {names : List String} {fields : List (String × Json)}
    (h : names.all (occursAtMostOnce fields)) :
    record? names (record fields) = some ⟨false, fields⟩ := by
  simp only [record, record?, namedMembers?_namedMembers, Option.bind_eq_bind, Option.bind_some]
  exact if_pos h

end AgentLedger.Json
