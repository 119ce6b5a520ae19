import AgentLedger.Bytes

namespace AgentLedger.Ed25519

/-!
# The curve

The curve is -x² + y² = 1 + d x² y² over the field of 2²⁵⁵ - 19 elements. A point is kept in
extended coordinates, so that adding points needs no division and one law covers all pairs.
-/

def prime : Nat := 0x7FFFFFFFFFFFFFFFFFFFFFFFFFFFFFFFFFFFFFFFFFFFFFFFFFFFFFFFFFFFFFED

/-- An element of the field. -/
structure Coordinate where
  val : Nat
  val_lt : val < prime
deriving DecidableEq, Repr

/-- Repeated multiplication, by squaring. -/
def power {α : Type} (one : α) (mul : α → α → α) (a : α) (n : Nat) : α :=
  if n = 0 then one
  else
    let half := power one mul a (n / 2)
    let square := mul half half
    if n % 2 = 0 then square else mul square a
termination_by n
decreasing_by omega

namespace Coordinate

def ofNat (n : Nat) : Coordinate := ⟨n % prime, Nat.mod_lt n (by decide)⟩

instance (n : Nat) : OfNat Coordinate n := ⟨ofNat n⟩
instance : Add Coordinate := ⟨fun a b => ofNat (a.val + b.val)⟩
instance : Sub Coordinate := ⟨fun a b => ofNat (a.val + (prime - b.val))⟩
instance : Mul Coordinate := ⟨fun a b => ofNat (a.val * b.val)⟩

def pow (a : Coordinate) (n : Nat) : Coordinate := power 1 (· * ·) a n

/-- The inverse of `a`, or zero if `a` is zero. -/
def inverse (a : Coordinate) : Coordinate := a.pow (prime - 2)

def isOdd (a : Coordinate) : Bool := a.val % 2 = 1

def rootOfMinusOne : Coordinate := pow 2 ((prime - 1) / 4)

/-- The even square root of `u / v`, if there is one. -/
def sqrtRatio? (u v : Coordinate) : Option Coordinate :=
  let v3 := v * v * v
  let r := u * v3 * (u * v3 * v3 * v).pow ((prime - 5) / 8)
  let check := v * r * r
  let even (a : Coordinate) := if a.isOdd then 0 - a else a
  if check = u then some (even r)
  else if check = 0 - u then some (even (r * rootOfMinusOne))
  else none

end Coordinate

def curveD : Coordinate := (0 - 121665) * Coordinate.inverse 121666

/-- The point (x / z, y / z), with x y / z beside it. -/
structure Point where
  x : Coordinate
  y : Coordinate
  z : Coordinate
  t : Coordinate
deriving DecidableEq, Repr

namespace Point

def zero : Point := ⟨0, 1, 1, 0⟩

def ofAffine (x y : Coordinate) : Point := ⟨x, y, 1, x * y⟩

def add (p q : Point) : Point :=
  let a := (p.y - p.x) * (q.y - q.x)
  let b := (p.y + p.x) * (q.y + q.x)
  let c := 2 * curveD * p.t * q.t
  let d := 2 * p.z * q.z
  let e := b - a
  let f := d - c
  let g := d + c
  let h := b + a
  ⟨e * f, g * h, f * g, e * h⟩

def neg (p : Point) : Point := { p with x := 0 - p.x, t := 0 - p.t }

def multiple (p : Point) (n : Nat) : Point := power zero add p n

/-- The point with a given y and a given parity of x. The parity of zero is ignored. -/
def ofY? (y : Coordinate) (odd : Bool) : Option Point :=
  (Coordinate.sqrtRatio? (y * y - 1) (curveD * y * y + 1)).map fun x =>
    ofAffine (if odd then 0 - x else x) y

/-- The bit of an encoding that tells the parity of x. -/
def signBit : Nat := 0x8000000000000000000000000000000000000000000000000000000000000000

/-- Reads y from 32 bytes, the lowest first, with the parity of x in the highest bit. Any y below
2²⁵⁵ is taken. -/
def decompress? (bs : Bytes) : Option Point :=
  let n := bs.ofLittleEndian
  if bs.length = 32 then ofY? (.ofNat (n % signBit)) (signBit ≤ n) else none

def compress (p : Point) : Bytes :=
  let w := p.z.inverse
  let x := p.x * w
  let y := p.y * w
  Bytes.littleEndian 32 (y.val + if x.isOdd then signBit else 0)

/-- The point with y = 4/5 and an even x; `zero` stands for no point, but there is one. -/
def base : Point := (ofY? (4 * Coordinate.inverse 5) false).getD zero

@[simp] theorem length_compress (p : Point) : p.compress.length = 32 := by simp [compress]

end Point

/-- How many multiples the base point has. -/
def groupOrder : Nat := 0x1000000000000000000000000000000014DEF9DEA2F79CD65812631A5CF5D3ED

end AgentLedger.Ed25519
