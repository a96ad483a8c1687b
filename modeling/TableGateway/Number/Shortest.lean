import TableGateway.Number.Binary64

/-!
# The shortest decimal that reads back

Among the decimals that round to a given double, the one on the coarsest power-of-ten grid is
written, and of two on that grid the nearer. The interval of reals that round to the double and the
grids are compared exactly. A `Layout` says how the digits are set out.
-/

namespace TableGateway.Binary64

/-- The interval of reals that round to `x`, in quarters of a least subnormal. -/
def roundingInterval (x : Binary64) : Nat × Nat :=
  let below := if x.significand = Nat.pow 2 52 ∧ 0 < x.scale then 1 else 2
  ((4 * x.significand - below) * Nat.pow 2 x.scale, (4 * x.significand + 2) * Nat.pow 2 x.scale)

/-- The point `d · 10 ^ k` as a quotient in quarters of a least subnormal. -/
def gridPoint (d : Nat) (k : Int) : Nat × Nat :=
  if 0 ≤ k then (d * Nat.pow 10 k.toNat * (4 * unit), 1)
  else (d * (4 * unit), Nat.pow 10 (-k).toNat)

/-- Whether `d · 10 ^ k` rounds to `x`; the ends of the interval do when the significand is even. -/
def readsBack (x : Binary64) (d : Nat) (k : Int) : Bool :=
  let (lo, hi) := x.roundingInterval
  let (num, den) := gridPoint d k
  if x.significand % 2 = 0 then lo * den ≤ num && num ≤ hi * den
  else lo * den < num && num < hi * den

/-- The point of the grid `10 ^ k` that is written for `x`, if one reads back. -/
def onGrid (x : Binary64) (k : Int) : Option (Nat × Int) :=
  let low :=
    if 0 ≤ k then x.size / (Nat.pow 10 k.toNat * unit)
    else x.size * Nat.pow 10 (-k).toNat / unit
  let (lowNum, den) := gridPoint low k
  let (highNum, _) := gridPoint (low + 1) k
  let exact := 4 * x.size * den
  let toLow := exact - lowNum
  let toHigh := highNum - exact
  match x.readsBack low k, x.readsBack (low + 1) k with
  | true, true =>
    if toLow < toHigh ∨ (toLow = toHigh ∧ low % 2 = 0) then some (low, k) else some (low + 1, k)
  | true, false => some (low, k)
  | false, true => some (low + 1, k)
  | false, false => none

/-- A power of ten that is above a positive finite `x`. -/
def startingGrid (x : Binary64) : Int :=
  if unit ≤ x.size then ((Nat.toDigits 10 (x.size / unit)).length : Int)
  else 1 - ((Nat.toDigits 10 (unit / x.size)).length : Int)

/-- Digits and exponent of the shortest decimal for a positive finite `x`; seventeen digits always
suffice. -/
def shortest (x : Binary64) : Nat × Int :=
  let top := x.startingGrid
  ((List.range 20).findSome? fun i => x.onGrid (top - (i : Nat))).getD (0, 0)

/-- Where decimal digits are set out positionally. The point stands after `point` digits; outside
of `least ≤ point ≤ greatest` an exponent is written. -/
structure Layout where
  least : Int
  greatest : Int

namespace Layout

def positional (ds : List Char) (point : Int) : List Char :=
  if point ≤ 0 then ['0', '.'] ++ List.replicate (-point).toNat '0' ++ ds
  else if (ds.length : Int) ≤ point then
    ds ++ List.replicate (point.toNat - ds.length) '0' ++ ['.', '0']
  else ds.take point.toNat ++ ['.'] ++ ds.drop point.toNat

/-- The exponent always carries its sign. -/
def scientific (ds : List Char) (point : Int) : List Char :=
  let e := point - 1
  let tail := 'e' :: (if e < 0 then '-' else '+') :: Nat.toDigits 10 e.natAbs
  match ds with
  | [] => tail
  | [d] => d :: tail
  | d :: rest => d :: '.' :: rest ++ tail

/-- The text of a finite double. Zero has one digit and keeps its sign. -/
def write (layout : Layout) (x : Binary64) : List Char :=
  let text :=
    if x.size = 0 then positional ['0'] 1
    else
      let (d, k) := x.shortest
      let ds := Nat.toDigits 10 d
      let point := ds.length + k
      if layout.least ≤ point ∧ point ≤ layout.greatest then positional ds point
      else scientific ds point
  if x.isNegative then '-' :: text else text

end Layout

end TableGateway.Binary64
