import AgentLedger.Json.Numeral

namespace AgentLedger.Json.Numeral

/-!
# Numerals as floating-point numbers

The significand takes the leading digits as long as it fits in 64 bits. Further digits of the whole
part only raise the exponent, and further digits of the fraction are dropped. The significand is
then scaled in binary64 by one power of ten, so a value may differ from the nearest one in its last
places. A value above the greatest finite one is refused.
-/

/-- Appends digits to a significand; what no longer fits is returned beside it. -/
def accumulate : Nat → List Nat → Nat × List Nat
  | s, [] => (s, [])
  | s, d :: ds => if 10 * s + d < UInt64.size then accumulate (10 * s + d) ds else (s, d :: ds)

def tenTo (n : Nat) : Float := Float.ofScientific 1 false n

/-- The greatest power of ten that is a finite binary64 number. -/
def greatestPower : Nat := 308

/-- Scales by a power of ten, in steps if the power is too small for one. -/
def scale (f : Float) (e : Int) : Option Float :=
  if e.natAbs ≤ greatestPower then
    if e < 0 then some (f / tenTo e.natAbs)
    else
      let g := f * tenTo e.natAbs
      if g.isInf then none else some g
  else if f == 0 then some f
  else if e < 0 then scale (f / tenTo greatestPower) (e + greatestPower)
  else none
termination_by e.natAbs
decreasing_by
  simp only [greatestPower] at *
  omega

/-- The greatest exponent that is not taken to be out of range. -/
def greatestExponent : Nat := 0x7FFFFFFF

def magnitude? (n : Numeral) : Option Float :=
  let (s, raised) := accumulate 0 (Decimal.values n.whole)
  let (s, dropped) := accumulate s n.fraction
  let e : Int := raised.length - (n.fraction.length - dropped.length : Nat)
  let f := (UInt64.ofNat s).toFloat
  match n.exponent with
  | none => scale f e
  | some x =>
      if x.natAbs ≤ greatestExponent then
        scale f (max (-0x80000000) (min greatestExponent (e + x)))
      else if s ≠ 0 && x > 0 then none
      else some 0

def toFloat? (n : Numeral) : Option Float :=
  n.magnitude?.map fun f => if n.negative then -f else f

end AgentLedger.Json.Numeral
