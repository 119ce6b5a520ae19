namespace AgentLedger

/-!
# Token amounts

An amount counts the smallest token unit and is below 2¹²⁸. Sums and differences are checked;
only totals saturate.
-/

/-- The least number of units that is no amount. -/
def Amount.bound : Nat := 0x100000000000000000000000000000000

structure Amount where
  units : Nat
  units_lt : units < Amount.bound
deriving DecidableEq, Repr

namespace Amount

def ofNat? (n : Nat) : Option Amount := if h : n < bound then some ⟨n, h⟩ else none

instance : OfNat Amount 0 := ⟨⟨0, by decide⟩⟩
instance : OfNat Amount 1 := ⟨⟨1, by decide⟩⟩
instance : Inhabited Amount := ⟨0⟩
instance : ToString Amount := ⟨fun a => toString a.units⟩
instance : Ord Amount := ⟨fun a b => compare a.units b.units⟩
instance : LT Amount := ⟨fun a b => a.units < b.units⟩
instance : LE Amount := ⟨fun a b => a.units ≤ b.units⟩
instance (a b : Amount) : Decidable (a < b) := inferInstanceAs (Decidable (a.units < b.units))
instance (a b : Amount) : Decidable (a ≤ b) := inferInstanceAs (Decidable (a.units ≤ b.units))

def max : Amount := ⟨bound - 1, by decide⟩

def add? (a b : Amount) : Option Amount := ofNat? (a.units + b.units)

def saturatingAdd (a b : Amount) : Amount := (add? a b).getD max

/-- What is left of `a` after `b` is taken; nothing is left of an amount that is too small. -/
def sub (a b : Amount) : Amount := ⟨a.units - b.units, by have := a.units_lt; omega⟩

instance : Sub Amount := ⟨sub⟩

@[ext] theorem ext {a b : Amount} (h : a.units = b.units) : a = b := by
  cases a
  cases b
  cases h
  rfl

@[simp] theorem units_zero : (0 : Amount).units = 0 := rfl

@[simp] theorem units_one : (1 : Amount).units = 1 := rfl

@[simp] theorem units_sub (a b : Amount) : (a - b).units = a.units - b.units := rfl

instance : Std.TransOrd Amount := inferInstanceAs (Std.TransCmp (compareOn units))

instance : Std.LawfulEqOrd Amount where
  eq_of_compare h := ext (Std.compare_eq_iff_eq.1 h)
  compare_self := Std.compare_eq_iff_eq (α := Nat).2 rfl

theorem ofNat?_eq_some_iff {n : Nat} {a : Amount} : ofNat? n = some a ↔ a.units = n := by
  unfold ofNat?
  split
  · constructor
    · rintro ⟨⟩
      rfl
    · rintro rfl
      rfl
  · next h =>
      refine ⟨nofun, ?_⟩
      rintro rfl
      exact absurd a.units_lt h

@[simp] theorem ofNat?_units (a : Amount) : ofNat? a.units = some a := ofNat?_eq_some_iff.2 rfl

theorem add?_eq_some_iff {a b c : Amount} : a.add? b = some c ↔ c.units = a.units + b.units :=
  ofNat?_eq_some_iff

end Amount

end AgentLedger
