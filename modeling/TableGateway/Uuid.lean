/-!
# UUIDs

A UUID is its 32 hexadecimal digits. It is read in four spellings and written in the hyphenated one.
-/

namespace TableGateway

structure Uuid where
  digits : List (Fin 16)
  length_digits : digits.length = 32
deriving DecidableEq, Repr

namespace Uuid

def hexDigit? (c : Char) : Option (Fin 16) :=
  if '0' ≤ c ∧ c ≤ '9' then some (Fin.ofNat 16 (c.toNat - '0'.toNat))
  else if 'a' ≤ c ∧ c ≤ 'f' then some (Fin.ofNat 16 (c.toNat - 'a'.toNat + 10))
  else if 'A' ≤ c ∧ c ≤ 'F' then some (Fin.ofNat 16 (c.toNat - 'A'.toNat + 10))
  else none

def hexDigit (n : Fin 16) : Char := Nat.digitChar n.val

theorem hexDigit?_hexDigit (n : Fin 16) : hexDigit? (hexDigit n) = some n := by
  revert n
  decide

def ofHex? (cs : List Char) : Option Uuid :=
  match cs.mapM hexDigit? with
  | none => none
  | some ds => if h : ds.length = 32 then some ⟨ds, h⟩ else none

/-- Digits in groups of 8, 4, 4, 4 and 12, with hyphens between the groups. -/
def hyphenate (cs : List Char) : List Char :=
  cs.take 8 ++ '-' :: (cs.drop 8).take 4 ++ '-' :: (cs.drop 12).take 4 ++
    '-' :: (cs.drop 16).take 4 ++ '-' :: cs.drop 20

/-- Only the hyphenated spelling: the hyphens are dropped and must have stood at their places. -/
def ofHyphenated? (cs : List Char) : Option Uuid :=
  let plain := cs.filter (· != '-')
  if hyphenate plain = cs then ofHex? plain else none

def urn : List Char := "urn:uuid:".toList

/-- Plain, hyphenated, hyphenated in braces, or hyphenated after `urn:uuid:`, in any case. -/
def ofChars? (cs : List Char) : Option Uuid :=
  match cs with
  | '\x7b' :: rest =>
    if rest.getLast? = some '\x7d' then ofHyphenated? rest.dropLast else none
  | _ =>
    if (cs.take urn.length).map Char.toLower = urn then ofHyphenated? (cs.drop urn.length)
    else (ofHex? cs).or (ofHyphenated? cs)

def write (u : Uuid) : List Char := hyphenate (u.digits.map hexDigit)

def toText (u : Uuid) : String := String.ofList u.write

end Uuid

end TableGateway
