import AgentLedger.Bytes

namespace AgentLedger.Decimal

/-!
# Decimal digits

A number is written with its digits only, and without leading zeros.
-/

def digit (d : Nat) : UInt8 := .ofNat (48 + d)

/-- The digits of a number as numbers, the highest first. -/
def values (n : Nat) : List Nat := if n < 10 then [n] else values (n / 10) ++ [n % 10]
termination_by n
decreasing_by omega

def digits (n : Nat) : Bytes := (values n).map digit

def value? (b : UInt8) : Option Nat :=
  if 48 ≤ b && b ≤ 57 then some (b.toNat - 48) else none

theorem value?_digit {d : Nat} (h : d < 10) : value? (digit d) = some d := by
  have all : ∀ d, d < 10 → value? (digit d) = some d := by decide
  exact all d h

theorem values_of_lt {n : Nat} (h : n < 10) : values n = [n] := by
  rw [values]
  simp [h]

theorem values_of_ge {n : Nat} (h : 10 ≤ n) : values n = values (n / 10) ++ [n % 10] := by
  rw [values]
  simp [Nat.not_lt.2 h]

/-- The number with the given digits. -/
def ofValues (ds : List Nat) : Nat := ds.foldl (fun n d => 10 * n + d) 0

@[simp] theorem ofValues_values (n : Nat) : ofValues (values n) = n := by
  induction n using Nat.strongRecOn with
  | ind n ih =>
      by_cases small : n < 10
      · simp [values_of_lt small, ofValues]
      · have step := ih (n / 10) (by omega)
        rw [values_of_ge (by omega), ofValues, List.foldl_append]
        simp only [ofValues] at step
        simp only [step, List.foldl_cons, List.foldl_nil]
        omega

end AgentLedger.Decimal
