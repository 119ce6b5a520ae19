import AgentLedger.Bytes.Decimal

namespace AgentLedger.Json

/-!
# Numerals

A numeral keeps what was written: its sign, its whole part, the digits after the point if there is
one, and the exponent if there is one. It is an integer if it has neither a point nor an exponent;
a negative zero is no integer.
-/

structure Numeral where
  negative : Bool
  whole : Nat
  fraction : List Nat
  exponent : Option Int
deriving DecidableEq, Repr

namespace Numeral

def ofInt (i : Int) : Numeral := ⟨i < 0, i.natAbs, [], none⟩

def toInt? : Numeral → Option Int
  | ⟨false, n, [], none⟩ => some n
  | ⟨true, n + 1, [], none⟩ => some (-(n + 1))
  | _ => none

theorem ofInt_natCast (n : Nat) : ofInt n = ⟨false, n, [], none⟩ := by
  have nonneg : ¬ (n : Int) < 0 := by omega
  simp [ofInt, nonneg]

theorem ofInt_negSucc (n : Nat) : ofInt (.negSucc n) = ⟨true, n + 1, [], none⟩ := by
  have neg : Int.negSucc n < 0 := Int.negSucc_lt_zero n
  simp [ofInt, neg]

@[simp] theorem toInt?_ofInt (i : Int) : (ofInt i).toInt? = some i := by
  cases i with
  | ofNat n =>
      rw [Int.ofNat_eq_natCast, ofInt_natCast]
      rfl
  | negSucc n =>
      rw [ofInt_negSucc]
      rfl

def spell (n : Numeral) : Bytes :=
  (if n.negative then [45] else []) ++ Decimal.digits n.whole
    ++ (if n.fraction = [] then [] else 46 :: n.fraction.map Decimal.digit)
    ++ match n.exponent with
      | none => []
      | some e => 101 :: (if e < 0 then [45] else []) ++ Decimal.digits e.natAbs

end Numeral

end AgentLedger.Json
