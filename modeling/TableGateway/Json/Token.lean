import TableGateway.Json.Number

/-!
# JSON tokens

A text is cut into tokens up to the first place where none can be read; there the list ends in
`bad`. A string with a lone surrogate and a number out of range are tokens, but denote nothing.
-/

namespace TableGateway.Json

inductive Token
  | openArray | closeArray | openObject | closeObject | comma | colon
  | null
  | bool (b : Bool)
  | number (n : Option Number)
  | text (s : Option String)
  | bad
deriving Repr

/-- A character of a string, or a UTF-16 unit given by `\u`. -/
inductive StringPart
  | char (c : Char)
  | unit (n : Nat)

def hexValue? (c : Char) : Option Nat :=
  if '0' ≤ c ∧ c ≤ '9' then some (c.toNat - '0'.toNat)
  else if 'a' ≤ c ∧ c ≤ 'f' then some (c.toNat - 'a'.toNat + 10)
  else if 'A' ≤ c ∧ c ≤ 'F' then some (c.toNat - 'A'.toNat + 10)
  else none

def hexUnit? (a b c d : Char) : Option Nat :=
  match hexValue? a, hexValue? b, hexValue? c, hexValue? d with
  | some a, some b, some c, some d => some (((a * 16 + b) * 16 + c) * 16 + d)
  | _, _, _, _ => none

/-- The character that a backslash and this letter stand for. -/
def unescaped? : Char → Option Char
  | '"' => some '"'
  | '\\' => some '\\'
  | '/' => some '/'
  | 'b' => some '\x08'
  | 'f' => some '\x0c'
  | 'n' => some '\n'
  | 'r' => some '\r'
  | 't' => some '\t'
  | _ => none

/-- The parts of a string up to its closing quote, and what follows the quote. -/
def scanString : List Char → Option (List StringPart × List Char)
  | [] => none
  | '"' :: rest => some ([], rest)
  | '\\' :: 'u' :: a :: b :: c :: d :: rest =>
    match hexUnit? a b c d, scanString rest with
    | some n, some (parts, rest) => some (.unit n :: parts, rest)
    | _, _ => none
  | '\\' :: e :: rest =>
    match unescaped? e, scanString rest with
    | some c, some (parts, rest) => some (.char c :: parts, rest)
    | _, _ => none
  | c :: rest =>
    if c < ' ' ∨ c = '\\' then none
    else
      match scanString rest with
      | some (parts, rest) => some (.char c :: parts, rest)
      | none => none

theorem length_scanString {cs rest : List Char} {parts : List StringPart}
    (h : scanString cs = some (parts, rest)) : rest.length < cs.length := by
  fun_induction scanString cs generalizing parts rest with
  | case3 _ _ _ _ _ _ _ _ hs _ ih =>
    obtain ⟨_, rfl⟩ := Prod.mk.inj (Option.some.inj h)
    have := ih hs
    simp only [List.length_cons]
    omega
  | _ => grind

def isLeading (n : Nat) : Bool := 0xD800 ≤ n && n < 0xDC00

def isTrailing (n : Nat) : Bool := 0xDC00 ≤ n && n < 0xE000

/-- The characters of a string, unless one of its surrogates stands alone. -/
def characters? : List StringPart → Option (List Char)
  | [] => some []
  | .char c :: rest => (characters? rest).map (c :: ·)
  | .unit n :: .unit m :: rest =>
    if isLeading n ∧ isTrailing m then
      (characters? rest).map (Char.ofNat (0x10000 + (n - 0xD800) * 0x400 + (m - 0xDC00)) :: ·)
    else if isLeading n ∨ isTrailing n then none
    else (characters? (.unit m :: rest)).map (Char.ofNat n :: ·)
  | .unit n :: rest =>
    if isLeading n ∨ isTrailing n then none
    else (characters? rest).map (Char.ofNat n :: ·)

/-- Digits without a leading zero, unless zero is the only one. -/
def scanWhole (cs : List Char) : Option (List Char × List Char) :=
  match Numeral.digits? cs with
  | some ('0' :: _ :: _, _) => none
  | found => found

/-- A point with digits after it, or nothing. -/
def scanFraction (cs : List Char) : Option (List Char × List Char) :=
  if cs.head? = some '.' then Numeral.digits? cs.tail else some ([], cs)

/-- The exponent part of a number: whether it is negative, and its digits. -/
def scanExponent (cs : List Char) : Option (Option (Bool × List Char) × List Char) :=
  if cs.head? = some 'e' ∨ cs.head? = some 'E' then
    let (negative, digits) := Numeral.takeSign cs.tail
    (Numeral.digits? digits).map fun (digits, rest) => (some (negative, digits), rest)
  else some (none, cs)

def scanUnsigned (negative : Bool) (cs : List Char) : Option (NumberText × List Char) := do
  let (whole, cs) ← scanWhole cs
  let (fraction, cs) ← scanFraction cs
  let (exponent, cs) ← scanExponent cs
  some (⟨negative, whole, fraction, exponent⟩, cs)

def scanNumber : List Char → Option (NumberText × List Char)
  | '-' :: cs => scanUnsigned true cs
  | cs => scanUnsigned false cs

def isSpace (c : Char) : Bool := c = ' ' || c = '\n' || c = '\r' || c = '\t'

def scanToken : List Char → Option (Token × List Char)
  | '[' :: cs => some (.openArray, cs)
  | ']' :: cs => some (.closeArray, cs)
  | '\x7b' :: cs => some (.openObject, cs)
  | '\x7d' :: cs => some (.closeObject, cs)
  | ',' :: cs => some (.comma, cs)
  | ':' :: cs => some (.colon, cs)
  | 'n' :: 'u' :: 'l' :: 'l' :: cs => some (.null, cs)
  | 't' :: 'r' :: 'u' :: 'e' :: cs => some (.bool true, cs)
  | 'f' :: 'a' :: 'l' :: 's' :: 'e' :: cs => some (.bool false, cs)
  | '"' :: cs =>
    (scanString cs).map fun (parts, rest) => (.text ((characters? parts).map String.ofList), rest)
  | cs => (scanNumber cs).map fun (t, rest) => (.number t.number?, rest)

theorem length_scanWhole {cs ds rest : List Char} (h : scanWhole cs = some (ds, rest)) :
    rest.length < cs.length := by
  rw [scanWhole] at h
  split at h
  · cases h
  · exact Numeral.length_digits? h

theorem length_scanFraction {cs ds rest : List Char} (h : scanFraction cs = some (ds, rest)) :
    rest.length ≤ cs.length := by
  rw [scanFraction] at h
  split at h
  · have := Numeral.length_digits? h
    grind
  · grind

theorem length_scanExponent {cs rest : List Char} {e : Option (Bool × List Char)}
    (h : scanExponent cs = some (e, rest)) : rest.length ≤ cs.length := by
  rw [scanExponent] at h
  split at h
  · obtain ⟨⟨ds, r⟩, hd, hr⟩ := Option.map_eq_some_iff.mp h
    have := Numeral.length_digits? hd
    have := Numeral.length_takeSign cs.tail
    grind
  · grind

theorem length_scanUnsigned {negative : Bool} {cs rest : List Char} {t : NumberText}
    (h : scanUnsigned negative cs = some (t, rest)) : rest.length < cs.length := by
  simp only [scanUnsigned, Option.bind_eq_bind, Option.bind_eq_some_iff] at h
  obtain ⟨⟨_, _⟩, hw, ⟨_, _⟩, hf, ⟨_, _⟩, he, hr⟩ := h
  have := length_scanWhole hw
  have := length_scanFraction hf
  have := length_scanExponent he
  grind

theorem length_scanNumber {cs rest : List Char} {t : NumberText}
    (h : scanNumber cs = some (t, rest)) : rest.length < cs.length := by
  rw [scanNumber.eq_def] at h
  split at h
  · have := length_scanUnsigned h
    grind
  · exact length_scanUnsigned h

theorem length_scanToken {cs rest : List Char} {t : Token} (h : scanToken cs = some (t, rest)) :
    rest.length < cs.length := by
  rw [scanToken.eq_def] at h
  split at h
  case h_10 =>
    obtain ⟨⟨_, _⟩, hs, hr⟩ := Option.map_eq_some_iff.mp h
    have := length_scanString hs
    grind
  case h_11 =>
    obtain ⟨⟨_, _⟩, hs, hr⟩ := Option.map_eq_some_iff.mp h
    have := length_scanNumber hs
    grind
  all_goals grind

def tokens (cs : List Char) : List Token :=
  match cs with
  | [] => []
  | c :: rest =>
    if isSpace c then tokens rest
    else
      match _h : scanToken (c :: rest) with
      | none => [.bad]
      | some (t, after) => t :: tokens after
termination_by cs.length
decreasing_by
  · simp
  · exact length_scanToken ‹_›

theorem tokens_cons (c : Char) (rest : List Char) :
    tokens (c :: rest) =
      if isSpace c then tokens rest
      else (scanToken (c :: rest)).elim [.bad] fun found => found.1 :: tokens found.2 := by
  rw [tokens.eq_def]
  grind

end TableGateway.Json
