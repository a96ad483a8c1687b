import TableGateway.Json.Document

/-!
# Records in JSON documents

A record is read from an object by the names of its fields: a known field may occur once, and other
members are passed over. These readers are shared by the catalog and the grant documents.
-/

namespace TableGateway.Json.Document

def text? : Document → Option String
  | .text s => some s
  | _ => none

def flag? : Document → Option Bool
  | .bool b => some b
  | _ => none

def optionalText? : Document → Option (Option String)
  | .null => some none
  | .text s => some (some s)
  | _ => none

def list? {α : Type} (read : Document → Option α) : Document → Option (List α)
  | .array items => items.mapM read
  | _ => none

abbrev Fields := List (String × Document)

def fields? : Document → Option Fields
  | .object members => members.mapM fun (key, d) => key.map (·, d)
  | _ => none

namespace Fields

/-- The field with this name, if there is one; it is an error to give it twice. -/
def once? (fields : Fields) (name : String) : Option (Option Document) :=
  match fields.filter fun f => f.1 = name with
  | [] => some none
  | [(_, d)] => some (some d)
  | _ => none

def required? {α : Type} (fields : Fields) (name : String) (read : Document → Option α) :
    Option α :=
  match fields.once? name with
  | some (some d) => read d
  | _ => none

/-- The field, or `default` where it is missing. -/
def optional? {α : Type} (fields : Fields) (name : String) (default : α)
    (read : Document → Option α) : Option α :=
  match fields.once? name with
  | some (some d) => read d
  | some none => some default
  | none => none

/-- Whether every field that `known` does not have denotes a value inside `outer` containers. -/
def othersReadable (fields : Fields) (known : List String) (outer : Nat) : Bool :=
  fields.all fun (name, d) => known.contains name || (d.valueWithin? outer).isSome

end Fields

end TableGateway.Json.Document
