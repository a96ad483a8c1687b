import TableGateway.Calendar.Literal
import TableGateway.Json.Document
import TableGateway.Query.Error
import TableGateway.Uuid

/-!
# Values bound to statements

A literal of a query, an id, or a value of a body is converted to the type of its column and then
only ever bound as a parameter.
-/

namespace TableGateway

inductive BoundValue
  | null
  | bool (b : Bool)
  | int (n : Int)
  | double (x : Binary64)
  | text (s : String)
  | uuid (u : Uuid)
  | instant (t : Instant)
  | json (j : Json)
deriving Inhabited

namespace BoundValue

/-- A truth value in words or as a digit. -/
def readBool? (s : String) : Option Bool :=
  let word := Text.lowered (Text.trimmed s)
  if word = "true" ∨ word = "1" then some true
  else if word = "false" ∨ word = "0" then some false
  else none

/-- The value of a literal for a column type. A date is checked and kept as it is written; what is
not JSON is a JSON string. -/
def readLiteral? (type : DataType) (s : String) : Option BoundValue :=
  let trimmed := Text.trim s.toList
  match type with
  | .integer => (Numeral.readInt64? trimmed).map .int
  | .decimal | .float => (Numeral.readDouble? trimmed).map .double
  | .boolean => (readBool? s).map .bool
  | .datetime => (Calendar.readInstant? s).map .instant
  | .date => if Calendar.isDate trimmed then some (.text (Text.trimmed s)) else none
  | .uuid => (Uuid.ofChars? trimmed).map .uuid
  | .json => some (.json ((Json.readValue? s).getD (.text s)))
  | .text | .time | .other => some (.text s)

def ofText (column : Column) (s : String) : Except QueryError BoundValue :=
  match readLiteral? column.type s with
  | some v => .ok v
  | none => .error (.invalidLiteral column.name s (.literalOf column.type))

/-- The value that a number becomes in a column that takes numbers. -/
def ofNumber? (type : DataType) (n : Json.Number) : Option BoundValue :=
  match type with
  | .integer => n.int64?.map .int
  | .decimal | .float => some (.double n.toBinary64)
  | .other => some ((n.int64?.map .int).getD (.double n.toBinary64))
  | .text => some (.text (String.ofList n.write))
  | _ => none

/-- The value of a JSON value for a column type, strings aside. -/
def ofNonText? (type : DataType) (j : Json) : Option BoundValue :=
  match j, type with
  | .bool b, .boolean | .bool b, .other | .bool b, .text => some (.bool b)
  | .number n, type => ofNumber? type n
  | .array items, .other => some (.json (.array items))
  | .object members, .other => some (.json (.object members))
  | _, _ => none

/-- The value of a JSON value for a column. Null is null in every column, a JSON column takes any
other value as it is, and a string is read like a literal. -/
def ofJson (column : Column) (j : Json) : Except QueryError BoundValue :=
  match j with
  | .null => .ok .null
  | j =>
    if column.type = .json then .ok (.json j)
    else
      match j with
      | .text s => ofText column s
      | j =>
        match ofNonText? column.type j with
        | some v => .ok v
        | none => .error (.invalidLiteral column.name j.toText (.literalOf column.type))

def toJson : BoundValue → Json
  | .null => .null
  | .bool b => .bool b
  | .int n => .ofInt n
  | .double x => .ofBinary64 x
  | .text s => .text s
  | .uuid u => .text u.toText
  | .instant t => .text t.toRfc3339
  | .json j => j

end BoundValue

end TableGateway
