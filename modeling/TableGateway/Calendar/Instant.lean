import TableGateway.Calendar.Date

/-!
# Instants

A point of time in UTC as whole seconds from 1970-01-01T00:00:00 and nanoseconds. A leap second is
kept as the second before it with a thousand million nanoseconds or more, and is written as `:60`.
-/

namespace TableGateway

structure Instant where
  seconds : Int
  nanos : Nat
deriving DecidableEq, Repr, Inhabited

namespace Instant

def secondsPerDay : Int := 86400

def nanosPerSecond : Nat := 1000000000

def date (t : Instant) : Date := .ofDayNumber (t.seconds / secondsPerDay)

def secondOfDay (t : Instant) : Nat := (t.seconds % secondsPerDay).toNat

/-- Whether the year can be represented. -/
def inRange (t : Instant) : Bool :=
  Date.minYear ≤ t.date.year && t.date.year ≤ Date.maxYear

/-- Nothing, or a point and the fewest of three, six or nine digits. -/
def writeFraction (nanos : Nat) : List Char :=
  if nanos = 0 then []
  else if nanos % 1000000 = 0 then '.' :: Text.padded 3 (nanos / 1000000)
  else if nanos % 1000 = 0 then '.' :: Text.padded 6 (nanos / 1000)
  else '.' :: Text.padded 9 nanos

/-- A time of day, given by its second and the nanoseconds from there. -/
def writeTime (second nanos : Nat) : List Char :=
  Text.padded 2 (second / 3600) ++ ':' :: Text.padded 2 (second / 60 % 60) ++
    ':' :: Text.padded 2 (second % 60 + nanos / nanosPerSecond) ++
    writeFraction (nanos % nanosPerSecond)

/-- Date and time without an offset. -/
def writeLocal (t : Instant) : List Char :=
  t.date.write ++ 'T' :: writeTime t.secondOfDay t.nanos

/-- RFC 3339 with the numeric offset of UTC. -/
def toRfc3339 (t : Instant) : String := String.ofList (t.writeLocal ++ "+00:00".toList)

/-- RFC 3339 with `Z` for UTC. -/
def toZulu (t : Instant) : String := String.ofList (t.writeLocal ++ ['Z'])

end Instant

end TableGateway
