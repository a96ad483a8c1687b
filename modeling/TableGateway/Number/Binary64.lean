/-!
# Double precision numbers

An IEEE 754 double is kept as its 64 bits. A finite one is `significand · 2 ^ scale` in units of
the least subnormal, so its value is an exact quotient of naturals and every rounding below is
integer arithmetic: to nearest, a tie to the even neighbour.
-/

namespace TableGateway

structure Binary64 where
  bits : UInt64
deriving DecidableEq, Repr, Inhabited

namespace Binary64

def magnitude (x : Binary64) : Nat := x.bits.toNat % Nat.pow 2 63

def isNegative (x : Binary64) : Bool := Nat.pow 2 63 ≤ x.bits.toNat

/-- The magnitude of infinity; greater ones are not numbers. -/
def infinite : Nat := 0x7FF * Nat.pow 2 52

def isFinite (x : Binary64) : Bool := x.magnitude < infinite

def isNaN (x : Binary64) : Bool := infinite < x.magnitude

def ofMagnitude (negative : Bool) (magnitude : Nat) : Binary64 :=
  ⟨UInt64.ofNat (if negative then Nat.pow 2 63 + magnitude else magnitude)⟩

def infinity (negative : Bool) : Binary64 := ofMagnitude negative infinite

def nan : Binary64 := ofMagnitude false (infinite + Nat.pow 2 51)

def significand (x : Binary64) : Nat :=
  if x.magnitude < Nat.pow 2 52 then x.magnitude else x.magnitude % Nat.pow 2 52 + Nat.pow 2 52

def scale (x : Binary64) : Nat := x.magnitude / Nat.pow 2 52 - 1

/-- How many least subnormals make one. -/
def unit : Nat := Nat.pow 2 1074

/-- The absolute value of a finite double, in least subnormals. -/
def size (x : Binary64) : Nat := x.significand * Nat.pow 2 x.scale

/-- The quotient rounded to the nearest integer, a half to the even one. -/
def roundDiv (num den : Nat) : Nat :=
  let q := num / den
  let r := num % den
  if den < 2 * r ∨ (2 * r = den ∧ q % 2 = 1) then q + 1 else q

/-- Magnitude of the double nearest to `num / den`; what is too large becomes infinite. -/
def nearest (num den : Nat) : Nat :=
  let shift := Nat.log2 (num * unit / den) - 52
  min infinite (shift * Nat.pow 2 52 + roundDiv (num * unit) (den * Nat.pow 2 shift))

def ofRatio (negative : Bool) (num den : Nat) : Binary64 :=
  ofMagnitude negative (nearest num den)

def ofInt (n : Int) : Binary64 := ofRatio (n < 0) n.natAbs 1

/-- The double nearest to `m · 10 ^ e`. Exponents far outside the range are decided by the number
of digits alone. -/
def ofDecimal (negative : Bool) (m : Nat) (e : Int) : Binary64 :=
  let digits : Int := (Nat.toDigits 10 m).length
  if m = 0 ∨ digits + e < -330 then ofMagnitude negative 0
  else if 330 < digits + e then infinity negative
  else if 0 ≤ e then ofRatio negative (m * Nat.pow 10 e.toNat) 1
  else ofRatio negative m (Nat.pow 10 (-e).toNat)

/-- The rounded product of the absolute values of two finite doubles. -/
def mulSizes (x y : Binary64) : Binary64 := ofRatio false (x.size * y.size) (unit * unit)

/-- The rounded quotient of the absolute values of two finite doubles. -/
def divSizes (x y : Binary64) : Binary64 := ofRatio false x.size y.size

def withSign (negative : Bool) (x : Binary64) : Binary64 := ofMagnitude negative x.magnitude

/-- A single precision number, given by its 32 bits, as the double of the same value. -/
def ofSingle (bits : Nat) : Binary64 :=
  let negative := decide (Nat.pow 2 31 ≤ bits % Nat.pow 2 32)
  let rest := bits % Nat.pow 2 31
  let field := rest / Nat.pow 2 23
  let fraction := rest % Nat.pow 2 23
  if field = 255 then ofMagnitude negative (infinite + fraction * Nat.pow 2 29)
  else if field = 0 then ofRatio negative fraction (Nat.pow 2 149)
  else ofRatio negative ((fraction + Nat.pow 2 23) * Nat.pow 2 field) (Nat.pow 2 150)

end Binary64

end TableGateway
