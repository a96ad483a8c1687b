import TableGateway.Number.Numeral
import TableGateway.Number.Shortest
import TableGateway.Text.Basic

/-!
# JSON numbers

A number without point and exponent that fits 64 bits, signed or unsigned, stays an integer. Every
other number is a double. Such a double is rounded twice: at most the digits that fit 64 bits are
kept and rounded to a double, and this is then scaled by a power of ten. A number too large for a
double is refused.
-/

namespace TableGateway.Json

inductive Number
  | int (n : Int)
  | double (x : Binary64)
deriving DecidableEq, Repr, Inhabited

structure NumberText where
  negative : Bool
  whole : List Char
  fraction : List Char
  exponent : Option (Bool × List Char)

namespace NumberText

def maxKept : Nat := Nat.pow 2 64 - 1

/-- Appends digits to `kept` as long as 64 bits hold it, and says how many were appended. -/
def keep (kept : Nat) : List Char → Nat × Nat
  | [] => (kept, 0)
  | c :: cs =>
    let next := kept * 10 + Numeral.digitValue c
    if next ≤ maxKept then
      let (all, n) := keep next cs
      (all, n + 1)
    else (kept, 0)

/-- Digits that are kept, and the power of ten that scales them, the exponent part aside. -/
def kept (t : NumberText) : Nat × Int :=
  let (m, n) := keep 0 t.whole
  let (m', n') := keep m t.fraction
  (m', (t.whole.length - n : Int) - n')

def powerOfTen (k : Nat) : Binary64 := .ofRatio false (Nat.pow 10 k) 1

/-- A double scaled by a power of ten. Powers beyond the range of doubles are applied in steps. -/
def scaled? (x : Binary64) (e : Int) : Option Binary64 :=
  if x.size = 0 then some x
  else if 308 < e then none
  else if 0 ≤ e then (some (x.mulSizes (powerOfTen e.toNat))).filter Binary64.isFinite
  else if -308 ≤ e then some (x.divSizes (powerOfTen (-e).toNat))
  else if -616 ≤ e then some ((x.divSizes (powerOfTen 308)).divSizes (powerOfTen (-e - 308).toNat))
  else some (.ofMagnitude false 0)

/-- The size of an exponent above this bound decides the number by itself. -/
def maxExponent : Nat := Nat.pow 2 31 - 1

def double? (t : NumberText) : Option Binary64 :=
  let (m, e) := t.kept
  let x := Binary64.ofRatio false m 1
  let size :=
    match t.exponent with
    | none => scaled? x e
    | some (negative, digits) =>
      let n := Numeral.ofDigits digits
      if n ≤ maxExponent then scaled? x (if negative then e - n else e + n)
      else if m ≠ 0 ∧ !negative then none
      else some (.ofMagnitude false 0)
  size.map (Binary64.withSign t.negative)

def isInteger (t : NumberText) : Bool :=
  t.fraction.isEmpty && t.exponent.isNone && decide (Numeral.ofDigits t.whole ≤ maxKept)

/-- The number that the text denotes, if it is in range. A negative zero is a double. -/
def number? (t : NumberText) : Option Number :=
  let n := Numeral.ofDigits t.whole
  if t.isInteger ∧ !t.negative then some (.int n)
  else if t.isInteger ∧ 0 < n ∧ n ≤ Nat.pow 2 63 then some (.int (-n))
  else t.double?.map .double

end NumberText

namespace Number

/-- Positional from 0.00001 up to sixteen digits before the point. -/
def layout : Binary64.Layout := ⟨-4, 16⟩

def write : Number → List Char
  | .int n => Text.signedDecimal n
  | .double x => layout.write x

/-- The value as a 64 bit signed integer, when it is one and was written as an integer. -/
def int64? : Number → Option Int
  | .int n => if Numeral.fitsInt64 n then some n else none
  | .double _ => none

def toBinary64 : Number → Binary64
  | .int n => .ofInt n
  | .double x => x

end Number

end TableGateway.Json
