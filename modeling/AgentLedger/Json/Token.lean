import AgentLedger.Bytes.Hex
import AgentLedger.Json.Numeral

namespace AgentLedger.Json

/-!
# Tokens

A text is read byte by byte into tokens. A string stands for bytes that need not be UTF-8: an
escaped surrogate without its partner becomes the three bytes that UTF-8 leaves unused, so that
such a string is a token and yet no text. A number ends at the first byte that cannot extend it.
-/

inductive Token where
  | openArray
  | closeArray
  | openObject
  | closeObject
  | comma
  | colon
  | null
  | bool (b : Bool)
  | number (n : Numeral)
  | text (bs : Bytes)
deriving DecidableEq, Repr

/-! ## Spelling -/

/-- A quote, a backslash and the control characters are escaped. -/
def escapeByte (b : UInt8) : Bytes :=
  if b = 34 then [92, 34]
  else if b = 92 then [92, 92]
  else if b = 8 then [92, 98]
  else if b = 9 then [92, 116]
  else if b = 10 then [92, 110]
  else if b = 12 then [92, 102]
  else if b = 13 then [92, 114]
  else if b < 32 then 92 :: 117 :: 48 :: 48 :: Hex.encode [b]
  else [b]

def Token.spell : Token → Bytes
  | openArray => [91]
  | closeArray => [93]
  | openObject => [123]
  | closeObject => [125]
  | comma => [44]
  | colon => [58]
  | null => [110, 117, 108, 108]
  | bool true => [116, 114, 117, 101]
  | bool false => [102, 97, 108, 115, 101]
  | number n => n.spell
  | text bs => 34 :: bs.flatMap escapeByte ++ [34]

/-! ## Strings -/

/-- What stands between quotes: a byte as it is, or a 16-bit unit given by its number. -/
inductive Piece where
  | byte (b : UInt8)
  | unit (u : Nat)
deriving DecidableEq, Repr

/-- The UTF-8 pattern for a code point, which may also be a surrogate. -/
def codePointBytes (n : Nat) : Bytes :=
  let tail (n : Nat) : UInt8 := .ofNat (128 + n % 64)
  if n < 0x80 then [.ofNat n]
  else if n < 0x800 then [.ofNat (192 + n / 64), tail n]
  else if n < 0x10000 then [.ofNat (224 + n / 4096), tail (n / 64), tail n]
  else [.ofNat (240 + n / 262144), tail (n / 4096), tail (n / 64), tail n]

def isHighSurrogate (u : Nat) : Bool := 0xD800 ≤ u && u < 0xDC00

def isLowSurrogate (u : Nat) : Bool := 0xDC00 ≤ u && u < 0xE000

/-- The bytes of a string; two surrogates that belong together are one code point. -/
def Piece.join : List Piece → Bytes
  | [] => []
  | byte b :: rest => b :: join rest
  | unit h :: unit l :: rest =>
      if isHighSurrogate h && isLowSurrogate l then
        codePointBytes (0x10000 + (h - 0xD800) * 1024 + (l - 0xDC00)) ++ join rest
      else codePointBytes h ++ join (unit l :: rest)
  | unit u :: rest => codePointBytes u ++ join rest

/-- The byte that a backslash and the given byte stand for. -/
def escaped? (b : UInt8) : Option UInt8 :=
  if b = 34 || b = 92 || b = 47 then some b
  else if b = 98 then some 8
  else if b = 102 then some 12
  else if b = 110 then some 10
  else if b = 114 then some 13
  else if b = 116 then some 9
  else none

/-! ## Scanning -/

/-- Where the scanner stands. Lists of digits and pieces have the newest first. -/
inductive Scan where
  | between
  | word (rest : Bytes) (token : Token)
  | sign
  | whole (negative : Bool) (n : Nat)
  | point (negative : Bool) (n : Nat)
  | fraction (negative : Bool) (n : Nat) (digits : List Nat)
  | mark (n : Numeral)
  | exponentSign (n : Numeral) (negative : Bool)
  | exponent (n : Numeral) (negative : Bool) (e : Nat)
  | text (done : List Piece)
  | escape (done : List Piece)
  | unit (done : List Piece) (left : Nat) (u : Nat)
deriving DecidableEq, Repr

/-- The numeral read so far, if it may end here. -/
def Scan.numeral? : Scan → Option Numeral
  | whole negative n => some ⟨negative, n, [], none⟩
  | fraction negative n digits => some ⟨negative, n, digits.reverse, none⟩
  | exponent n negative e => some { n with exponent := some (if negative then -e else e) }
  | _ => none

structure Lexer where
  tokens : List Token
  scan : Scan
deriving DecidableEq, Repr

namespace Lexer

def initial : Lexer := ⟨[], .between⟩

def emit (s : Lexer) (t : Token) : Lexer := ⟨t :: s.tokens, .between⟩

/-- A byte between tokens. -/
def start (s : Lexer) (b : UInt8) : Option Lexer :=
  if b = 32 || b = 9 || b = 10 || b = 13 then some s
  else if b = 91 then s.emit .openArray
  else if b = 93 then s.emit .closeArray
  else if b = 123 then s.emit .openObject
  else if b = 125 then s.emit .closeObject
  else if b = 44 then s.emit .comma
  else if b = 58 then s.emit .colon
  else if b = 34 then some { s with scan := .text [] }
  else if b = 45 then some { s with scan := .sign }
  else if b = 110 then some { s with scan := .word [117, 108, 108] .null }
  else if b = 116 then some { s with scan := .word [114, 117, 101] (.bool true) }
  else if b = 102 then some { s with scan := .word [97, 108, 115, 101] (.bool false) }
  else (Decimal.value? b).map fun d => { s with scan := .whole false d }

def isExponentMark (b : UInt8) : Bool := b = 101 || b = 69

/-- A byte that does not extend a number ends it. -/
def endNumber (s : Lexer) (b : UInt8) : Option Lexer :=
  s.scan.numeral?.bind fun n => start ⟨.number n :: s.tokens, .between⟩ b

def step (s : Lexer) (b : UInt8) : Option Lexer :=
  let next (scan : Scan) : Option Lexer := some { s with scan }
  match s.scan, Decimal.value? b with
  | .between, _ => s.start b
  | .word [c] t, _ => if b = c then s.emit t else none
  | .word (c :: rest) t, _ => if b = c then next (.word rest t) else none
  | .word [] _, _ => none
  | .sign, some d => next (.whole true d)
  | .whole negative n, some d => if n = 0 then none else next (.whole negative (10 * n + d))
  | .whole negative n, none =>
      if b = 46 then next (.point negative n)
      else if isExponentMark b then next (.mark ⟨negative, n, [], none⟩)
      else s.endNumber b
  | .point negative n, some d => next (.fraction negative n [d])
  | .fraction negative n digits, some d => next (.fraction negative n (d :: digits))
  | .fraction negative n digits, none =>
      if isExponentMark b then next (.mark ⟨negative, n, digits.reverse, none⟩)
      else s.endNumber b
  | .mark n, some d => next (.exponent n false d)
  | .mark n, none =>
      if b = 43 then next (.exponentSign n false)
      else if b = 45 then next (.exponentSign n true)
      else none
  | .exponentSign n negative, some d => next (.exponent n negative d)
  | .exponent n negative e, some d => next (.exponent n negative (10 * e + d))
  | .exponent .., none => s.endNumber b
  | .text done, _ =>
      if b = 34 then s.emit (.text (Piece.join done.reverse))
      else if b = 92 then next (.escape done)
      else if b < 32 then none
      else next (.text (.byte b :: done))
  | .escape done, _ =>
      if b = 117 then next (.unit done 4 0)
      else (escaped? b).bind fun c => next (.text (.byte c :: done))
  | .unit done left u, _ =>
      (Hex.value? b).bind fun h =>
        if left = 1 then next (.text (.unit (16 * u + h) :: done))
        else next (.unit done (left - 1) (16 * u + h))
  | .sign, none | .point .., none | .exponentSign .., none => none

def finish (s : Lexer) : Option (List Token) :=
  match s.scan with
  | .between => some s.tokens.reverse
  | scan => scan.numeral?.map fun n => (Token.number n :: s.tokens).reverse

end Lexer

/-- The tokens of a whole text. -/
def lex (bs : Bytes) : Option (List Token) := (bs.foldlM Lexer.step .initial).bind Lexer.finish

end AgentLedger.Json
