/-!
# Texts

Query fragments, literals and settings are trimmed of the characters with the Unicode `White_Space`
property. Schemas, entities, columns, roles and keywords are looked up without regard to the case of
ASCII letters; every other character must match exactly. Lists in query fragments are separated by
single characters, and qualified names are cut at their first dot.
-/

namespace TableGateway.Text

/-- Inclusive code point ranges of `White_Space`. -/
def blankRanges : List (Nat × Nat) :=
  [(0x9, 0xD), (0x20, 0x20), (0x85, 0x85), (0xA0, 0xA0), (0x1680, 0x1680), (0x2000, 0x200A),
    (0x2028, 0x2029), (0x202F, 0x202F), (0x205F, 0x205F), (0x3000, 0x3000)]

def isBlank (c : Char) : Bool :=
  blankRanges.any fun r => r.1 ≤ c.toNat && c.toNat ≤ r.2

def trimStart (cs : List Char) : List Char := cs.dropWhile isBlank

def trimEnd (cs : List Char) : List Char := (cs.reverse.dropWhile isBlank).reverse

def trim (cs : List Char) : List Char := trimEnd (trimStart cs)

def trimmed (s : String) : String := String.ofList (trim s.toList)

def isBlankText (s : String) : Bool := s.toList.all isBlank

/-- The characters of a text with ASCII letters in lower case. -/
def folded (s : String) : List Char := s.toList.map Char.toLower

def sameName (a b : String) : Bool := folded a == folded b

theorem sameName_eq_true_iff {a b : String} : sameName a b = true ↔ folded a = folded b := by
  simp [sameName]

@[simp] theorem sameName_self (a : String) : sameName a a = true := by
  simp [sameName]

theorem sameName_comm (a b : String) : sameName a b = sameName b a := by
  rw [sameName, sameName, Bool.beq_comm]

def lowered (s : String) : String := String.ofList (folded s)

theorem lowered_eq_iff {a b : String} : lowered a = lowered b ↔ sameName a b = true := by
  rw [sameName_eq_true_iff, lowered, lowered, String.ofList_inj]

/-- The pieces between the characters that satisfy `p`; there is one more piece than separators. -/
def splitChars (p : Char → Bool) : List Char → List (List Char)
  | [] => [[]]
  | c :: cs =>
    if p c then [] :: splitChars p cs
    else match splitChars p cs with
      | [] => [[c]]
      | piece :: pieces => (c :: piece) :: pieces

theorem splitChars_ne_nil (p : Char → Bool) (cs : List Char) : splitChars p cs ≠ [] := by
  cases cs with
  | nil => simp [splitChars]
  | cons c cs =>
    rw [splitChars]
    split
    · simp
    · split <;> simp

def split (p : Char → Bool) (s : String) : List String :=
  (splitChars p s.toList).map String.ofList

def cut? (sep : Char) (s : String) : Option (String × String) :=
  match s.toList.span (· != sep) with
  | (_, []) => none
  | (before, _ :: after) => some (String.ofList before, String.ofList after)

/-- The texts one after the other with `sep` between neighbours. -/
def join (sep : List Char) : List (List Char) → List Char
  | [] => []
  | [x] => x
  | x :: y :: rest => x ++ sep ++ join sep (y :: rest)

def decimal (n : Nat) : List Char := Nat.toDigits 10 n

/-- Decimal digits of an integer, a minus sign before a negative one. -/
def signedDecimal (n : Int) : List Char :=
  if n < 0 then '-' :: decimal n.natAbs else decimal n.natAbs

/-- At least `width` digits, filled with zeros on the left. -/
def padded (width n : Nat) : List Char :=
  List.replicate (width - (decimal n).length) '0' ++ decimal n

end TableGateway.Text
