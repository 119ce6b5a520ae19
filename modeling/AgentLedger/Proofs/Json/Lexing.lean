import AgentLedger.Json.Token
import Mathlib.Data.List.Chain

namespace AgentLedger.Json

/-!
# Tokens are read back

What is spelled token by token is read token by token, as long as no number stands next to another:
a number goes on until the first byte that cannot extend it, and that byte is the first of what
comes next.
-/

/-- The digits after the point are digits. -/
def Numeral.Readable (n : Numeral) : Prop := ∀ d ∈ n.fraction, d < 10

theorem Numeral.readable_ofInt (i : Int) : (ofInt i).Readable := nofun

namespace Token

def isNumber : Token → Bool
  | number _ => true
  | _ => false

def Readable : Token → Prop
  | number n => n.Readable
  | _ => True

/-- Not both are numbers. -/
def Apart (s t : Token) : Prop := s.isNumber → ¬ t.isNumber

end Token

namespace Lexer

variable {s : Lexer} {ts : List Token} {b : UInt8} {bs cs : Bytes}

def run (s : Lexer) (bs : Bytes) : Option Lexer := bs.foldlM step s

@[simp] theorem run_nil (s : Lexer) : s.run [] = some s := rfl

@[simp] theorem run_cons (s : Lexer) (b : UInt8) (bs : Bytes) :
    s.run (b :: bs) = (s.step b).bind fun t => t.run bs := rfl

@[simp] theorem run_append (s : Lexer) (bs cs : Bytes) :
    s.run (bs ++ cs) = (s.run bs).bind fun t => t.run cs := List.foldlM_append

/-! ## Numbers -/

/-- The digits of a number are read if each shifts the number so far, which never starts with a
zero. -/
theorem run_digits {σ : Nat → Lexer} (first : ∀ d < 10, s.step (Decimal.digit d) = some (σ d))
    (next : ∀ k d, k ≠ 0 → d < 10 → (σ k).step (Decimal.digit d) = some (σ (10 * k + d)))
    (n : Nat) : s.run (Decimal.digits n) = some (σ n) := by
  induction n using Nat.strongRecOn with
  | ind n ih =>
      by_cases small : n < 10
      · simp [Decimal.digits, Decimal.values_of_lt small, first n small]
      · have shorter := ih (n / 10) (by omega)
        have last := next (n / 10) (n % 10) (by omega) (by omega)
        have whole : 10 * (n / 10) + n % 10 = n := by omega
        rw [whole] at last
        rw [Decimal.digits, Decimal.values_of_ge (by omega), List.map_append, run_append]
        rw [Decimal.digits] at shorter
        simp [shorter, last]

theorem run_fraction {acc : List Token} {negative : Bool} {n : Nat} {ds es : List Nat}
    (digits : ∀ d ∈ es, d < 10) :
    run ⟨acc, .fraction negative n ds⟩ (es.map Decimal.digit) =
      some ⟨acc, .fraction negative n (es.reverse ++ ds)⟩ := by
  induction es generalizing ds with
  | nil => rfl
  | cons e rest ih =>
      rw [List.forall_mem_cons] at digits
      simp only [List.map_cons, run_cons, step, Decimal.value?_digit digits.1, Option.bind_some,
        ih digits.2, List.reverse_cons, List.append_assoc, List.singleton_append]

theorem start_digit (s : Lexer) {d : Nat} (h : d < 10) :
    s.start (Decimal.digit d) = some { s with scan := .whole false d } := by
  have all : ∀ d, d < 10 → 48 ≤ Decimal.digit d ∧ Decimal.digit d ≤ 57 := by decide
  have outside : ∀ b ∈ ([32, 9, 10, 13, 91, 93, 123, 125, 44, 58, 34, 45, 110, 116, 102] : Bytes),
      ¬ (48 ≤ b ∧ b ≤ 57) := by simp
  have other : ∀ b ∈ ([32, 9, 10, 13, 91, 93, 123, 125, 44, 58, 34, 45, 110, 116, 102] : Bytes),
      Decimal.digit d ≠ b := by
    rintro b mem rfl
    exact outside _ mem (all d h)
  simp only [List.forall_mem_cons] at other
  simp [start, other, Decimal.value?_digit h]

theorem step_of_numeral? {n : Numeral} (pending : s.scan.numeral? = some n)
    (digit : Decimal.value? b = none) (point : b ≠ 46) (mark : isExponentMark b = false) :
    s.step b = step ⟨.number n :: s.tokens, .between⟩ b := by
  obtain ⟨tokens, scan⟩ := s
  cases scan with
  | whole negative k =>
      cases pending
      simp [step, digit, point, mark, endNumber, Scan.numeral?]
  | fraction negative k digits =>
      cases pending
      simp [step, digit, mark, endNumber, Scan.numeral?]
  | exponent k negative e =>
      cases pending
      simp [step, digit, endNumber, Scan.numeral?]
  | _ => cases pending

theorem run_whole {acc : List Token} (negative : Bool) (n : Nat) :
    run ⟨acc, .between⟩ ((if negative then [45] else []) ++ Decimal.digits n) =
      some ⟨acc, .whole negative n⟩ := by
  have next (k d : Nat) (nonzero : k ≠ 0) (h : d < 10) :
      step ⟨acc, .whole negative k⟩ (Decimal.digit d) =
        some ⟨acc, .whole negative (10 * k + d)⟩ := by
    simp [step, Decimal.value?_digit h, nonzero]
  cases negative with
  | true =>
      have first (d : Nat) (h : d < 10) :
          step ⟨acc, .sign⟩ (Decimal.digit d) = some ⟨acc, .whole true d⟩ := by
        simp [step, Decimal.value?_digit h]
      exact run_digits first next n
  | false =>
      have first (d : Nat) (h : d < 10) :
          step ⟨acc, .between⟩ (Decimal.digit d) = some ⟨acc, .whole false d⟩ :=
        start_digit ⟨acc, .between⟩ h
      exact run_digits first next n

/-- The point and what follows it, up to the mark of an exponent. -/
theorem run_point (acc : List Token) (negative : Bool) (whole : Nat) {ds : List Nat}
    (digits : ∀ d ∈ ds, d < 10) :
    ∃ scan, run ⟨acc, .whole negative whole⟩
        (if ds = [] then [] else 46 :: ds.map Decimal.digit) = some ⟨acc, scan⟩ ∧
      scan.numeral? = some ⟨negative, whole, ds, none⟩ ∧
      step ⟨acc, scan⟩ 101 = some ⟨acc, .mark ⟨negative, whole, ds, none⟩⟩ := by
  cases ds with
  | nil => exact ⟨.whole negative whole, rfl, rfl, rfl⟩
  | cons d ds =>
      rw [List.forall_mem_cons] at digits
      have dot : step ⟨acc, .whole negative whole⟩ 46 = some ⟨acc, .point negative whole⟩ := rfl
      have first : step ⟨acc, .point negative whole⟩ (Decimal.digit d) =
          some ⟨acc, .fraction negative whole [d]⟩ := by
        simp [step, Decimal.value?_digit digits.1]
      have letter : Decimal.value? 101 = none := rfl
      refine ⟨.fraction negative whole (ds.reverse ++ [d]), ?_, ?_, ?_⟩
      · simp [dot, first, run_fraction digits.2]
      · simp [Scan.numeral?]
      · simp [step, letter, isExponentMark]

theorem run_exponent {acc : List Token} (n : Numeral) (e : Int) :
    run ⟨acc, .mark n⟩ ((if e < 0 then [45] else []) ++ Decimal.digits e.natAbs) =
      some ⟨acc, .exponent n (e < 0) e.natAbs⟩ := by
  have next (k d : Nat) (_ : k ≠ 0) (h : d < 10) :
      step ⟨acc, .exponent n (e < 0) k⟩ (Decimal.digit d) =
        some ⟨acc, .exponent n (e < 0) (10 * k + d)⟩ := by
    simp [step, Decimal.value?_digit h]
  by_cases negative : e < 0
  · have first (d : Nat) (h : d < 10) :
        step ⟨acc, .exponentSign n true⟩ (Decimal.digit d) =
          some ⟨acc, .exponent n (e < 0) d⟩ := by
      simp [step, Decimal.value?_digit h, negative]
    have minus : step ⟨acc, .mark n⟩ 45 = some ⟨acc, .exponentSign n true⟩ := rfl
    rw [if_pos negative, List.singleton_append, run_cons, minus]
    exact run_digits first next e.natAbs
  · have first (d : Nat) (h : d < 10) :
        step ⟨acc, .mark n⟩ (Decimal.digit d) = some ⟨acc, .exponent n (e < 0) d⟩ := by
      simp [step, Decimal.value?_digit h, negative]
    rw [if_neg negative]
    exact run_digits first next e.natAbs

/-- After a numeral the machine waits for what ends it. -/
theorem run_numeral (acc : List Token) {n : Numeral} (h : n.Readable) :
    ∃ scan, run ⟨acc, .between⟩ n.spell = some ⟨acc, scan⟩ ∧ scan.numeral? = some n := by
  obtain ⟨negative, whole, fraction, exponent⟩ := n
  obtain ⟨scan, read, numeral, mark⟩ := run_point acc negative whole h
  unfold Numeral.spell
  rw [run_append, run_append, run_whole, Option.bind_some, read, Option.bind_some]
  cases exponent with
  | none => exact ⟨scan, rfl, numeral⟩
  | some e =>
      refine ⟨.exponent ⟨negative, whole, fraction, none⟩ (e < 0) e.natAbs, ?_, ?_⟩
      · simp only [List.cons_append, run_cons, mark, Option.bind_some]
        exact run_exponent _ e
      · have value : (if e < 0 then -(e.natAbs : Int) else e.natAbs) = e := by
          split <;> omega
        simp only [Scan.numeral?, decide_eq_true_eq, value]

/-! ## Strings -/

/-- How a byte of a string is read back. -/
def pieceOf (b : UInt8) : Piece :=
  if b < 32 ∧ b ∉ [8, 9, 10, 12, 13] then .unit b.toNat else .byte b

theorem join_unit {u : Nat} (h : isHighSurrogate u = false) (rest : List Piece) :
    Piece.join (.unit u :: rest) = codePointBytes u ++ Piece.join rest := by
  cases rest with
  | nil => rfl
  | cons p rest =>
      cases p with
      | byte b => rfl
      | unit l => simp [Piece.join, h]

theorem join_map_pieceOf (bs : Bytes) : Piece.join (bs.map pieceOf) = bs := by
  induction bs with
  | nil => rfl
  | cons b rest ih =>
      rw [List.map_cons]
      by_cases control : b < 32 ∧ b ∉ ([8, 9, 10, 12, 13] : Bytes)
      · have small : b.toNat < 32 := control.1
        have low : isHighSurrogate b.toNat = false := by
          simp [isHighSurrogate]
          omega
        have alone : codePointBytes b.toNat = [b] := by
          simp [codePointBytes, show b.toNat < 128 by omega]
        rw [pieceOf, if_pos control, join_unit low, alone, ih]
        rfl
      · rw [pieceOf, if_neg control, Piece.join, ih]

/-- A control character without a name of its own is escaped by its number. -/
theorem run_control {acc : List Token} (done : List Piece) {b : UInt8} (h : b < 32) :
    run ⟨acc, .text done⟩ (92 :: 117 :: 48 :: 48 :: Hex.encode [b]) =
      some ⟨acc, .text (.unit b.toNat :: done)⟩ := by
  have small : b.toNat < 32 := h
  have high := Hex.value?_digit (n := b.toNat / 16) (by omega)
  have low := Hex.value?_digit (n := b.toNat % 16) (by omega)
  have zero : Hex.value? 48 = some 0 := rfl
  have whole : 16 * (b.toNat / 16) + b.toNat % 16 = b.toNat := by omega
  simp [step, Hex.encode, high, low, zero, whole]

theorem run_escapeByte {acc : List Token} (done : List Piece) (b : UInt8) :
    run ⟨acc, .text done⟩ (escapeByte b) = some ⟨acc, .text (pieceOf b :: done)⟩ := by
  by_cases named : b ∈ ([34, 92, 8, 9, 10, 12, 13] : Bytes)
  · simp only [List.mem_cons, List.not_mem_nil, or_false] at named
    rcases named with rfl | rfl | rfl | rfl | rfl | rfl | rfl <;> rfl
  simp only [List.mem_cons, List.not_mem_nil, or_false, not_or] at named
  by_cases control : b < 32
  · have piece : pieceOf b = .unit b.toNat := if_pos ⟨control, by simp [named]⟩
    rw [piece, ← run_control done control]
    simp [escapeByte, named, control]
  · have piece : pieceOf b = .byte b := if_neg fun h => control h.1
    rw [piece]
    simp [escapeByte, step, named, control]

theorem run_text {acc : List Token} (done : List Piece) (bs : Bytes) :
    run ⟨acc, .text done⟩ (bs.flatMap escapeByte) =
      some ⟨acc, .text ((bs.map pieceOf).reverse ++ done)⟩ := by
  induction bs generalizing done with
  | nil => rfl
  | cons b rest ih => simp [run_escapeByte, ih]

/-! ## Tokens -/

theorem run_spell {acc : List Token} {t : Token} (h : t.isNumber = false) :
    run ⟨acc, .between⟩ t.spell = some ⟨t :: acc, .between⟩ := by
  cases t with
  | number n => cases h
  | text bs =>
      have quote : step ⟨acc, .between⟩ 34 = some ⟨acc, .text []⟩ := rfl
      have close (done : List Piece) : step ⟨acc, .text done⟩ 34 =
          some ⟨.text (Piece.join done.reverse) :: acc, .between⟩ := rfl
      simp [Token.spell, quote, run_text, close, join_map_pieceOf]
  | bool b => cases b <;> rfl
  | _ => rfl

/-- Only a number can be extended by what comes next. -/
theorem spell_eq_cons {t : Token} (h : t.isNumber = false) : ∃ b bs, t.spell = b :: bs ∧
    Decimal.value? b = none ∧ b ≠ 46 ∧ isExponentMark b = false := by
  cases t with
  | number n => cases h
  | text bs => exact ⟨34, bs.flatMap escapeByte ++ [34], rfl, by decide, by decide, by decide⟩
  | bool b => cases b <;> exact ⟨_, _, rfl, by decide, by decide, by decide⟩
  | _ => exact ⟨_, _, rfl, by decide, by decide, by decide⟩

/-- The machine has read the tokens, and is waiting for the end of the last if that is a number. -/
inductive Stands : Lexer → List Token → Prop where
  | between (ts : List Token) : Stands ⟨ts.reverse, .between⟩ ts
  | number (ts : List Token) {n : Numeral} {scan : Scan} (pending : scan.numeral? = some n) :
      Stands ⟨ts.reverse, scan⟩ (ts ++ [.number n])

theorem Stands.finish (h : s.Stands ts) : s.finish = some ts := by
  cases h with
  | between ts => simp [Lexer.finish]
  | @number ts n scan pending =>
      -- A machine between tokens has no number pending.
      cases scan with
      | between => cases pending
      | _ => simp [Lexer.finish, pending]

theorem Stands.run_spell (h : s.Stands ts) {t : Token} (readable : t.Readable)
    (apart : ∀ u ∈ ts.getLast?, u.Apart t) :
    ∃ s', s.run t.spell = some s' ∧ s'.Stands (ts ++ [t]) := by
  cases h with
  | between ts =>
      cases number : t.isNumber with
      | false =>
          refine ⟨⟨t :: ts.reverse, .between⟩, Lexer.run_spell number, ?_⟩
          have stands := Stands.between (ts ++ [t])
          rw [List.reverse_append] at stands
          exact stands
      | true =>
          cases t with
          | number n =>
              obtain ⟨scan, read, pending⟩ := run_numeral ts.reverse readable
              exact ⟨_, read, .number ts pending⟩
          | _ => cases number
  | @number ts n scan pending =>
      have number : t.isNumber = false := by
        have last := apart (.number n) (by simp)
        simpa using last rfl
      obtain ⟨b, bs, spell, digit, point, mark⟩ := spell_eq_cons number
      have same : run ⟨ts.reverse, scan⟩ t.spell =
          run ⟨.number n :: ts.reverse, .between⟩ t.spell := by
        rw [spell, run_cons, run_cons, step_of_numeral? pending digit point mark]
      refine ⟨⟨t :: .number n :: ts.reverse, .between⟩, same.trans (Lexer.run_spell number), ?_⟩
      have stands := Stands.between (ts ++ [.number n] ++ [t])
      simp only [List.reverse_append, List.reverse_singleton, List.singleton_append] at stands
      exact stands

theorem Stands.run_flatMap {us : List Token} (h : s.Stands ts) (readable : ∀ t ∈ us, t.Readable)
    (apart : (ts ++ us).IsChain Token.Apart) :
    ∃ s', s.run (us.flatMap Token.spell) = some s' ∧ s'.Stands (ts ++ us) := by
  induction us generalizing s ts with
  | nil => exact ⟨s, rfl, by simpa using h⟩
  | cons t rest ih =>
      rw [List.forall_mem_cons] at readable
      obtain ⟨s', read, next⟩ := h.run_spell readable.1 (by
        intro u last
        exact (List.isChain_append.1 apart).2.2 u last t rfl)
      rw [List.append_cons] at apart ⊢
      obtain ⟨s'', later, stands⟩ := ih next readable.2 apart
      exact ⟨s'', by rw [List.flatMap_cons, run_append, read, Option.bind_some, later], stands⟩

end Lexer

theorem lex_flatMap_spell {ts : List Token} (readable : ∀ t ∈ ts, t.Readable)
    (apart : ts.IsChain Token.Apart) : lex (ts.flatMap Token.spell) = some ts := by
  obtain ⟨s, read, stands⟩ := (Lexer.Stands.between []).run_flatMap readable apart
  change (Lexer.run ⟨[].reverse, .between⟩ _).bind Lexer.finish = some ([] ++ ts)
  rw [read, Option.bind_some, stands.finish]

end AgentLedger.Json
