import TableGateway.Number.Binary64

/-!
# Numerals

Integers and doubles as they are written in query strings, settings and JSON strings: a sign of
either kind is allowed, digits are ASCII, and nothing may surround the number.
-/

namespace TableGateway.Numeral

def digitValue (c : Char) : Nat := c.toNat - '0'.toNat

def ofDigits (cs : List Char) : Nat := cs.foldl (fun n c => 10 * n + digitValue c) 0

/-- Whether a minus sign comes first, and what follows the sign. -/
def takeSign : List Char → Bool × List Char
  | '-' :: cs => (true, cs)
  | '+' :: cs => (false, cs)
  | cs => (false, cs)

theorem length_takeSign (cs : List Char) : (takeSign cs).2.length ≤ cs.length := by
  fun_cases takeSign cs <;> grind

def splitDigits (cs : List Char) : List Char × List Char :=
  (cs.takeWhile Char.isDigit, cs.dropWhile Char.isDigit)

theorem splitDigits_append (cs : List Char) : (splitDigits cs).1 ++ (splitDigits cs).2 = cs :=
  List.takeWhile_append_dropWhile

/-- The leading digits, of which there must be one, and the rest. -/
def digits? (cs : List Char) : Option (List Char × List Char) :=
  if (splitDigits cs).1 = [] then none else some (splitDigits cs)

theorem length_digits? {cs ds rest : List Char} (h : digits? cs = some (ds, rest)) :
    rest.length < cs.length := by
  have happend := congrArg List.length (splitDigits_append cs)
  grind [digits?, List.length_eq_zero_iff]

def isDigits (cs : List Char) : Bool := !cs.isEmpty && cs.all Char.isDigit

def readInteger? (cs : List Char) : Option Int :=
  let (negative, digits) := takeSign cs
  if isDigits digits then
    some (if negative then -(ofDigits digits : Int) else (ofDigits digits : Int))
  else none

def minInt64 : Int := -9223372036854775808

def maxInt64 : Int := 9223372036854775807

def fitsInt64 (n : Int) : Bool := minInt64 ≤ n && n ≤ maxInt64

def readInt64? (cs : List Char) : Option Int := (readInteger? cs).filter fitsInt64

/-- A natural number below `2 ^ 64`; a minus sign is refused even before zero. -/
def readUInt64? (cs : List Char) : Option Nat :=
  match cs with
  | '-' :: _ => none
  | _ => ((readInteger? cs).map Int.toNat).filter fun n => decide (n < Nat.pow 2 64)

/-- The exponent part of a decimal: nothing, or `e` and a signed integer. -/
def readExponent? : List Char → Option Int
  | [] => some 0
  | c :: cs => if c = 'e' ∨ c = 'E' then readInteger? cs else none

/-- A point and the digits after it, which may be missing together or the digits alone. -/
def takeFraction : List Char → List Char × List Char
  | '.' :: cs => splitDigits cs
  | cs => ([], cs)

def readDecimal? (negative : Bool) (cs : List Char) : Option Binary64 :=
  let (whole, rest) := splitDigits cs
  let (fraction, rest) := takeFraction rest
  if (whole ++ fraction).isEmpty then none
  else (readExponent? rest).map fun e =>
    .ofDecimal negative (ofDigits (whole ++ fraction)) (e - fraction.length)

/-- A decimal, or `inf`, `infinity` or `nan` in any case. -/
def readDouble? (cs : List Char) : Option Binary64 :=
  let (negative, body) := takeSign cs
  let word := String.ofList (body.map Char.toLower)
  if word = "inf" ∨ word = "infinity" then some (.infinity negative)
  else if word = "nan" then some .nan
  else readDecimal? negative body

end TableGateway.Numeral
