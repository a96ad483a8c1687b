import TableGateway.Calendar.Instant
import TableGateway.Number.Numeral
import TableGateway.Text.Basic

/-!
# Date and time literals

A format is a list of items, each of which reads a stretch of the text. A date/time literal is
read by the first format of `instantFormats` that takes all of it. Literals with an offset are
moved to UTC; literals without one are UTC already, and a date alone means its midnight.
-/

namespace TableGateway.Calendar

inductive Field
  | year | month | day | hour | minute | second
deriving DecidableEq, Repr

/-- How a UTC offset may be spelled. -/
structure OffsetRule where
  /-- Blanks before the sign, and blanks or colons in any number between hours and minutes. -/
  loose : Bool
  allowZ : Bool
  allowHoursOnly : Bool

inductive Item
  /-- As many digits as the field has, no fewer. -/
  | fixed (field : Field)
  /-- Blanks are skipped, leading zeros may be missing, and a year may be signed. -/
  | loose (field : Field)
  | mark (options : List Char)
  | blanks
  | fraction
  | offset (rule : OffsetRule)

structure Reading where
  year : Int := 0
  month : Nat := 1
  day : Nat := 1
  hour : Nat := 0
  minute : Nat := 0
  second : Nat := 0
  nanos : Nat := 0
  offset : Int := 0

namespace Field

def width : Field → Nat
  | .year => 4
  | _ => 2

/-- Stores a number in its field when it is in the field's range. -/
def set? (field : Field) (n : Int) (r : Reading) : Option Reading :=
  match field with
  | .year => some { r with year := n }
  | .month => if 1 ≤ n ∧ n ≤ 12 then some { r with month := n.toNat } else none
  | .day => if 1 ≤ n ∧ n ≤ 31 then some { r with day := n.toNat } else none
  | .hour => if 0 ≤ n ∧ n ≤ 23 then some { r with hour := n.toNat } else none
  | .minute => if 0 ≤ n ∧ n ≤ 59 then some { r with minute := n.toNat } else none
  | .second => if 0 ≤ n ∧ n ≤ 60 then some { r with second := n.toNat } else none

end Field

/-- Up to `limit` leading digits, and the rest. -/
def takeDigits (limit : Nat) (cs : List Char) : List Char × List Char :=
  let digits := (cs.take limit).takeWhile Char.isDigit
  (digits, cs.drop digits.length)

/-- A number of at least `least` and at most `limit` digits. -/
def readNumber? (least limit : Nat) (cs : List Char) : Option (Int × List Char) :=
  let (digits, rest) := takeDigits limit cs
  if digits.length < least ∨ digits.isEmpty then none else some (Numeral.ofDigits digits, rest)

def readLoose? (field : Field) (cs : List Char) : Option (Int × List Char) :=
  match field, cs with
  | .year, '-' :: rest => (readNumber? 1 rest.length rest).map fun (n, r) => (-n, r)
  | .year, '+' :: rest => readNumber? 1 rest.length rest
  | _, _ => readNumber? 1 field.width cs

/-- The digits after a point, as nanoseconds; those beyond the ninth are dropped. -/
def readFraction? : List Char → Option (Nat × List Char)
  | '.' :: cs =>
    let (digits, rest) := Numeral.splitDigits cs
    let kept := digits.take 9
    if digits.isEmpty then none
    else some (Numeral.ofDigits kept * Nat.pow 10 (9 - kept.length), rest)
  | cs => some (0, cs)

/-- A sign, with U+2212 as another minus. -/
def readSign? : List Char → Option (Int × List Char)
  | '+' :: cs => some (1, cs)
  | '-' :: cs => some (-1, cs)
  | '\u2212' :: cs => some (-1, cs)
  | _ => none

def OffsetRule.separate? (rule : OffsetRule) (cs : List Char) : Option (List Char) :=
  if rule.loose then some (cs.dropWhile fun c => c = ':' || Text.isBlank c)
  else match cs with
    | ':' :: rest => some rest
    | _ => none

def OffsetRule.readMinutes? (rule : OffsetRule) (cs : List Char) : Option (Int × List Char) :=
  if cs.isEmpty then (if rule.allowHoursOnly then some (0, []) else none)
  else (readNumber? 2 2 cs).filter fun (n, _) => n ≤ 59

/-- The offset in seconds east of UTC. -/
def OffsetRule.readNumeric? (rule : OffsetRule) (cs : List Char) : Option (Int × List Char) := do
  let (sign, afterSign) ← readSign? cs
  let (hours, afterHours) ← readNumber? 2 2 afterSign
  let minutesText ← rule.separate? afterHours
  let (minutes, rest) ← rule.readMinutes? minutesText
  some (sign * (hours * 3600 + minutes * 60), rest)

def OffsetRule.read? (rule : OffsetRule) (cs : List Char) : Option (Int × List Char) :=
  let cs := if rule.loose then Text.trimStart cs else cs
  match cs with
  | c :: rest =>
    if rule.allowZ ∧ (c = 'Z' ∨ c = 'z') then some (0, rest) else rule.readNumeric? cs
  | [] => none

def Item.read? (item : Item) (r : Reading) (cs : List Char) : Option (Reading × List Char) :=
  match item with
  | .fixed field => do
    let (n, rest) ← readNumber? field.width field.width cs
    some (← field.set? n r, rest)
  | .loose field => do
    let (n, rest) ← readLoose? field (Text.trimStart cs)
    some (← field.set? n r, rest)
  | .mark options =>
    match cs with
    | c :: rest => if options.contains c then some (r, rest) else none
    | [] => none
  | .blanks => some (r, Text.trimStart cs)
  | .fraction => (readFraction? cs).map fun (n, rest) => ({ r with nanos := n }, rest)
  | .offset rule => (rule.read? cs).map fun (n, rest) => ({ r with offset := n }, rest)

abbrev Format := List Item

/-- Reads the items one after the other; nothing may be left over. -/
def Format.read? : Format → Reading → List Char → Option Reading
  | [], r, cs => if cs.isEmpty then some r else none
  | item :: items, r, cs => do
    let (r, rest) ← item.read? r cs
    Format.read? items r rest

namespace Reading

def date (r : Reading) : Date := ⟨r.year, r.month, r.day⟩

/-- The instant at which a clock with the offset of the reading shows it. -/
def instant? (r : Reading) : Option Instant :=
  let leap := r.second = 60
  let second : Int := if leap then 59 else r.second
  let t : Instant :=
    { seconds := r.date.dayNumber * Instant.secondsPerDay + r.hour * 3600 + r.minute * 60 + second
        - r.offset
      nanos := if leap then r.nanos + Instant.nanosPerSecond else r.nanos }
  let day := Instant.secondsPerDay
  if r.date.isValid ∧ -day < r.offset ∧ r.offset < day ∧ t.inRange then some t else none

end Reading

def dateFormat : Format :=
  [.loose .year, .mark ['-'], .loose .month, .mark ['-'], .loose .day]

def minuteFormat : Format := [.loose .hour, .mark [':'], .loose .minute]

def secondFormat : Format := minuteFormat ++ [.mark [':'], .loose .second, .fraction]

/-- Every number with all its digits and a colon in the offset. -/
def rfc3339Format : Format :=
  [.fixed .year, .mark ['-'], .fixed .month, .mark ['-'], .fixed .day, .mark ['t', 'T', ' '],
    .fixed .hour, .mark [':'], .fixed .minute, .mark [':'], .fixed .second, .fraction,
    .offset ⟨false, true, false⟩]

def numericOffset : Item := .offset ⟨true, false, false⟩

def anyOffset : Item := .offset ⟨true, true, true⟩

def instantFormats : List Format :=
  [rfc3339Format,
    dateFormat ++ .mark ['T'] :: secondFormat ++ [numericOffset],
    dateFormat ++ .blanks :: secondFormat ++ [numericOffset],
    dateFormat ++ .blanks :: secondFormat ++ [anyOffset],
    dateFormat ++ .mark ['T'] :: secondFormat,
    dateFormat ++ .blanks :: secondFormat,
    dateFormat ++ .mark ['T'] :: minuteFormat,
    dateFormat]

def readFormat? (cs : List Char) (format : Format) : Option Instant :=
  (format.read? {} cs).bind Reading.instant?

/-- The instant that a literal denotes; blanks around it do not count. -/
def readInstant? (s : String) : Option Instant :=
  instantFormats.findSome? (readFormat? (Text.trim s.toList))

/-- Whether a text without blanks around it is a calendar date. -/
def isDate (cs : List Char) : Bool := (readFormat? cs dateFormat).isSome

end TableGateway.Calendar
