import TableGateway.Json.Value
import TableGateway.Text.Quoted

/-!
# Faults of patch documents

Why a JSON value is not a patch document, or a patch document not one for a table.
-/

namespace TableGateway

inductive PatchKind
  | add | remove | replace | move | copy | test
deriving DecidableEq, Repr

namespace PatchKind

def all : List PatchKind := [.add, .remove, .replace, .move, .copy, .test]

def name : PatchKind → String
  | .add => "add"
  | .remove => "remove"
  | .replace => "replace"
  | .move => "move"
  | .copy => "copy"
  | .test => "test"

def title : PatchKind → String
  | .add => "Add"
  | .remove => "Remove"
  | .replace => "Replace"
  | .move => "Move"
  | .copy => "Copy"
  | .test => "Test"

def ofName? (s : String) : Option PatchKind := all.find? fun k => k.name = s

end PatchKind

/-- What a place in a patch document takes. -/
inductive PatchPart
  | operation
  | kind
  | text
  | unit
deriving DecidableEq, Repr

def PatchPart.description : PatchPart → String
  | .operation => "struct PatchOperation"
  | .kind => "string or map"
  | .text => "a string"
  | .unit => "unit"

inductive PatchFault
  | notArray
  | wrongType (found : Json) (wanted : PatchPart)
  | unknownKind (name : String)
  | kindNotSingle
  | missingField (name : String)
  /-- An operation given as an array that ends before its path. -/
  | tooShort (length : Nat)
  | tooLong (length : Nat)
  | noResource (path : String)
  | notColumnPath (path : String)
  | missingValue (path : String)
  | unsupported (kind : PatchKind)

namespace PatchFault

def describeFound : Json → String
  | .null => "null"
  | .bool b => s!"boolean `{b}`"
  | .number (.int n) => "integer `" ++ String.ofList (Text.signedDecimal n) ++ "`"
  | .number (.double x) => "floating point `" ++ String.ofList ((Json.Number.double x).write) ++ "`"
  | .text s => "string " ++ String.ofList (Text.quoted s)
  | .array _ => "sequence"
  | .object _ => "map"

def allKinds : String := ", ".intercalate (PatchKind.all.map fun k => "`" ++ k.name ++ "`")

def message : PatchFault → String
  | .notArray => "expected a JSON array of operations"
  | .wrongType found wanted =>
    s!"invalid type: {describeFound found}, expected {wanted.description}"
  | .unknownKind name => s!"unknown variant `{name}`, expected one of {allKinds}"
  | .kindNotSingle => "invalid value: map, expected map with a single key"
  | .missingField name => s!"missing field `{name}`"
  | .tooShort length =>
    s!"invalid length {length}, expected struct PatchOperation with 4 elements"
  | .tooLong length => s!"invalid length {length}, expected fewer elements in array"
  | .noResource path => s!"path '{path}' does not start with a resource id"
  | .notColumnPath path => s!"path '{path}' must be /\x7bid\x7d/\x7bcolumn\x7d"
  | .missingValue path => s!"'{path}' needs a value"
  | .unsupported kind => s!"operation {kind.title} is not supported"

end PatchFault

end TableGateway
