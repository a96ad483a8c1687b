import TableGateway.Patch.Operation

/-!
# Patch documents

Reading operations from JSON. An operation is an object, or the array of its fields. Of several
faults the first in the order of the keys is reported, and missing fields come last.
-/

namespace TableGateway

namespace PatchKind

/-- A kind is given by its name, or as an object with the name as its only key and null as value. -/
def ofJson (j : Json) : Except PatchFault PatchKind :=
  let named (name : String) : Except PatchFault PatchKind :=
    match ofName? name with
    | some k => .ok k
    | none => .error (.unknownKind name)
  match j with
  | .text name => named name
  | .object [(name, content)] => do
    let k ← named name
    match content with
    | .null => .ok k
    | found => .error (.wrongType found .unit)
  | .object _ => .error .kindNotSingle
  | found => .error (.wrongType found .kind)

end PatchKind

namespace PatchOperation

def textOf : Json → Except PatchFault String
  | .text s => .ok s
  | found => .error (.wrongType found .text)

def sourceOf : Json → Except PatchFault (Option String)
  | .null => .ok none
  | j => (textOf j).map some

/-- A value; null is the same as none. -/
def valueOf : Json → Option Json
  | .null => none
  | v => some v

def fieldOf {α : Type} (read : Json → Except PatchFault α) (j : Json) (name : String) :
    Except PatchFault (Option α) :=
  (j.member? name).mapM read

def require {α : Type} (name : String) : Option α → Except PatchFault α
  | some x => .ok x
  | none => .error (.missingField name)

def ofObject (j : Json) : Except PatchFault PatchOperation := do
  let source ← fieldOf sourceOf j "from"
  let kind ← fieldOf PatchKind.ofJson j "op"
  let path ← fieldOf textOf j "path"
  let kind ← require "op" kind
  let path ← require "path" path
  .ok { kind, path, value := (j.member? "value").bind valueOf, source := source.join }

/-- Kind, path, value and source, of which the last two may be left out. -/
def ofItems (items : List Json) : Except PatchFault PatchOperation :=
  match items with
  | [] => .error (.tooShort 0)
  | kind :: rest => do
    let kind ← PatchKind.ofJson kind
    match rest with
    | [] => .error (.tooShort 1)
    | path :: rest => do
      let path ← textOf path
      match rest with
      | [] => .ok { kind, path }
      | [value] => .ok { kind, path, value := valueOf value }
      | value :: source :: more => do
        let source ← sourceOf source
        if more.isEmpty then .ok { kind, path, value := valueOf value, source }
        else .error (.tooLong items.length)

def ofJson : Json → Except PatchFault PatchOperation
  | .array items => ofItems items
  | .object members => ofObject (.object members)
  | found => .error (.wrongType found .operation)

def readAll : Json → Except PatchFault (List PatchOperation)
  | .array items => items.mapM ofJson
  | _ => .error .notArray

end PatchOperation

end TableGateway
