/-!
# UTF-8

Bytes are read character by character. Where no character can be read, the bytes up to the first
one that does not fit are a single fault; a strict reader then fails, and a lenient one puts the
replacement character there.
-/

namespace TableGateway.Text

/-- What the first byte of a character says about the others. -/
structure LeadByte where
  bits : Nat
  /-- How many bytes follow. -/
  count : Nat
  /-- The least and the greatest second byte. -/
  least : UInt8 := 0x80
  greatest : UInt8 := 0xBF

def leadByte? (b : UInt8) : Option LeadByte :=
  let n := b.toNat
  if n < 0x80 then some { bits := n, count := 0 }
  else if n < 0xC2 then none
  else if n < 0xE0 then some { bits := n - 0xC0, count := 1 }
  else if n = 0xE0 then some { bits := 0, count := 2, least := 0xA0 }
  else if n = 0xED then some { bits := 0xD, count := 2, greatest := 0x9F }
  else if n < 0xF0 then some { bits := n - 0xE0, count := 2 }
  else if n = 0xF0 then some { bits := 0, count := 3, least := 0x90 }
  else if n < 0xF4 then some { bits := n - 0xF0, count := 3 }
  else if n = 0xF4 then some { bits := 4, count := 3, greatest := 0x8F }
  else none

/-- Adds `count` further bytes to the bits of a character, and returns the bytes after them. -/
def continueChar (bits : Nat) (least greatest : UInt8) :
    Nat → List UInt8 → Option Char × List UInt8
  | 0, bs => (some (Char.ofNat bits), bs)
  | _ + 1, [] => (none, [])
  | count + 1, b :: bs =>
    if least ≤ b ∧ b ≤ greatest then
      continueChar (bits * 0x40 + (b.toNat - 0x80)) 0x80 0xBF count bs
    else (none, b :: bs)

theorem length_continueChar (bits : Nat) (least greatest : UInt8) (count : Nat) (bs : List UInt8) :
    (continueChar bits least greatest count bs).2.length ≤ bs.length := by
  fun_induction continueChar bits least greatest count bs <;> grind

/-- The characters of a byte sequence, with `none` for each fault. -/
def readUtf8 (bs : List UInt8) : List (Option Char) :=
  match bs with
  | [] => []
  | b :: bs =>
    match leadByte? b with
    | none => none :: readUtf8 bs
    | some lead =>
      let rest := continueChar lead.bits lead.least lead.greatest lead.count bs
      rest.1 :: readUtf8 rest.2
termination_by bs.length
decreasing_by
  · simp
  · simpa [rest] using Nat.lt_succ_of_le (length_continueChar ..)

def decodeUtf8? (bs : List UInt8) : Option (List Char) := (readUtf8 bs).mapM fun c => c

/-- The characters with U+FFFD for each fault. -/
def decodeUtf8Lossy (bs : List UInt8) : List Char := (readUtf8 bs).map fun c => c.getD '\ufffd'

end TableGateway.Text
