import TableGateway.Calendar.Instant
import TableGateway.Json.Document
import TableGateway.Uuid

/-!
# Cells

The values in the rows that the database returns, and their JSON. Days and times are counted from
2000-01-01T00:00:00, and JSON is stored as text. What cannot be read is null.
-/

namespace TableGateway

namespace Instant

/-- 2000-01-01T00:00:00 in seconds. -/
def databaseEpoch : Int := 946684800

def ofDatabaseMicros (micros : Int) : Instant :=
  ⟨databaseEpoch + micros / 1000000, (micros % 1000000).toNat * 1000⟩

/-- Microseconds from the beginning of 2000, rounded toward zero. -/
def toDatabaseMicros (t : Instant) : Int :=
  (((t.seconds - databaseEpoch) * nanosPerSecond + t.nanos).tdiv 1000)

end Instant

inductive Cell
  | null
  | int16 (n : Int)
  | int32 (n : Int)
  | int64 (n : Int)
  | float32 (bits : Nat)
  | float64 (x : Binary64)
  | bool (b : Bool)
  | uuid (u : Uuid)
  | date (days : Int)
  | time (micros : Nat)
  | timestamp (micros : Int)
  | timestampTz (micros : Int)
  | text (s : String)
  | json (s : String)
  | unreadable

namespace Cell

def instantJson (micros : Int) : Json :=
  let t := Instant.ofDatabaseMicros micros
  if t.inRange then .text t.toRfc3339 else .null

def dateJson (days : Int) : Json :=
  let d := Date.ofDayNumber (days + Instant.databaseEpoch / Instant.secondsPerDay)
  if d.isValid then .text (String.ofList d.write) else .null

def toJson : Cell → Json
  | .null | .unreadable => .null
  | .int16 n | .int32 n | .int64 n => .ofInt n
  | .float32 bits => .ofBinary64 (.ofSingle bits)
  | .float64 x => .ofBinary64 x
  | .bool b => .bool b
  | .uuid u => .text u.toText
  | .date days => dateJson days
  | .time micros =>
    .text (String.ofList (Instant.writeTime (micros / 1000000) (micros % 1000000 * 1000)))
  | .timestamp micros | .timestampTz micros => instantJson micros
  | .text s => .text s
  | .json s => (Json.readValue? s).getD .null

end Cell

/-- The object of a row. Of columns with one name the last counts. -/
def rowJson (columns : List String) (cells : List Cell) : Json :=
  .ofMembers (columns.zip (cells.map Cell.toJson))

end TableGateway
