import AgentLedger.Json.Token

namespace AgentLedger

/-!
# Values

A value is written as tokens, without blanks, and read from tokens by a machine that keeps the
containers under construction in a list. Members of an object stay in order, and a key may occur
more than once; what that means is left to whoever reads the object.
-/

inductive Json where
  | null
  | bool (b : Bool)
  | number (n : Json.Numeral)
  | text (bs : Bytes)
  | array (items : List Json)
  | object (members : List (Bytes × Json))

namespace Json

instance : Inhabited Json := ⟨null⟩

/-! ## Writing -/

mutual

def tokens : Json → List Token
  | null => [.null]
  | bool b => [.bool b]
  | number n => [.number n]
  | text bs => [.text bs]
  | array items => .openArray :: itemTokens items ++ [.closeArray]
  | object members => .openObject :: memberTokens members ++ [.closeObject]

def itemTokens : List Json → List Token
  | [] => []
  | [v] => v.tokens
  | v :: w :: rest => v.tokens ++ .comma :: itemTokens (w :: rest)

def memberTokens : List (Bytes × Json) → List Token
  | [] => []
  | [(k, v)] => .text k :: .colon :: v.tokens
  | (k, v) :: m :: rest => .text k :: .colon :: v.tokens ++ .comma :: memberTokens (m :: rest)

end

def render (v : Json) : Bytes := v.tokens.flatMap Token.spell

/-! ## Reading -/

/-- A container under construction, its newest entry first. In an object, the value of `key` is
still to come. -/
inductive Frame where
  | array (items : List Json)
  | object (members : List (Bytes × Json)) (key : Bytes)

/-- What was read last, and so what may come next. -/
inductive Position where
  | value
  | firstItem
  | key (members : List (Bytes × Json)) (mayClose : Bool)
  | colon (members : List (Bytes × Json)) (key : Bytes)
  | complete (v : Json)

structure Builder where
  position : Position
  frames : List Frame

namespace Builder

def initial : Builder := ⟨.value, []⟩

def startValue (frames : List Frame) : Token → Option Builder
  | .null => some ⟨.complete .null, frames⟩
  | .bool b => some ⟨.complete (.bool b), frames⟩
  | .number n => some ⟨.complete (.number n), frames⟩
  | .text bs => some ⟨.complete (.text bs), frames⟩
  | .openArray => some ⟨.firstItem, .array [] :: frames⟩
  | .openObject => some ⟨.key [] true, frames⟩
  | _ => none

def step : Builder → Token → Option Builder
  | ⟨.value, frames⟩, t => startValue frames t
  | ⟨.firstItem, .array items :: frames⟩, .closeArray =>
      some ⟨.complete (.array items.reverse), frames⟩
  | ⟨.firstItem, frames⟩, t => startValue frames t
  | ⟨.key members _, frames⟩, .text k => some ⟨.colon members k, frames⟩
  | ⟨.key members true, frames⟩, .closeObject =>
      some ⟨.complete (.object members.reverse), frames⟩
  | ⟨.colon members k, frames⟩, .colon => some ⟨.value, .object members k :: frames⟩
  | ⟨.complete v, .array items :: frames⟩, .comma => some ⟨.value, .array (v :: items) :: frames⟩
  | ⟨.complete v, .array items :: frames⟩, .closeArray =>
      some ⟨.complete (.array (v :: items).reverse), frames⟩
  | ⟨.complete v, .object members k :: frames⟩, .comma =>
      some ⟨.key ((k, v) :: members) false, frames⟩
  | ⟨.complete v, .object members k :: frames⟩, .closeObject =>
      some ⟨.complete (.object ((k, v) :: members).reverse), frames⟩
  | _, _ => none

def finish : Builder → Option Json
  | ⟨.complete v, []⟩ => some v
  | _ => none

end Builder

def ofTokens? (ts : List Token) : Option Json :=
  (ts.foldlM Builder.step .initial).bind Builder.finish

/-- Reads one value and nothing else. -/
def parse? (bs : Bytes) : Option Json := (lex bs).bind ofTokens?

end Json

end AgentLedger
