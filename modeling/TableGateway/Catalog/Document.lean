import TableGateway.Catalog.Validation
import TableGateway.Json.Record

/-!
# Catalog documents

The JSON form of a catalog. An entity, a schema and the catalog itself may also be given as the
array of their fields; a column may not. Members that no field reads are passed over, except that
those of a column must denote values. Loading normalizes the catalog and checks it.
-/

namespace TableGateway

open Json

namespace DataType

/-- A name, or an object whose only key is the name, with null as its value. -/
def ofDocument? : Document → Option DataType
  | .text s => some (ofName s)
  | .object [(some key, .null)] => some (ofName key)
  | _ => none

end DataType

namespace Column

def fieldNames : List String :=
  ["name", "type", "references", "primary_key", "foreign_key", "auto_number", "computed", "unique",
    "indexed"]

/-- A column inside `outer` arrays and objects, its own included. -/
def ofDocument? (outer : Nat) (d : Document) : Option Column := do
  let fields ← d.fields?
  guard (fields.othersReadable fieldNames outer)
  some
    { name := ← fields.required? "name" Document.text?
      type := ← fields.required? "type" DataType.ofDocument?
      primaryKey := ← fields.optional? "primary_key" false Document.flag?
      foreignKey := ← fields.optional? "foreign_key" false Document.flag?
      autoNumber := ← fields.optional? "auto_number" false Document.flag?
      computed := ← fields.optional? "computed" false Document.flag?
      unique := ← fields.optional? "unique" false Document.flag?
      indexed := ← fields.optional? "indexed" false Document.flag?
      target := ← fields.optional? "references" none Document.optionalText? }

/-- The members of the JSON form, in the order in which they are written. -/
def members (c : Column) : List (String × Json) :=
  [("name", .text c.name), ("type", .text c.type.name), ("primary_key", .bool c.primaryKey),
    ("foreign_key", .bool c.foreignKey), ("auto_number", .bool c.autoNumber),
    ("computed", .bool c.computed), ("unique", .bool c.unique), ("indexed", .bool c.indexed)] ++
    c.target.toList.map fun target => ("references", .text target)

def toJson (c : Column) : Json := .ofMembers c.members

def toDocument (c : Column) : Document := .object (membersToDocuments c.members)

end Column

namespace Entity

def ofDocument? (outer : Nat) (d : Document) : Option Entity :=
  let columns? := Document.list? (Column.ofDocument? (outer + 2))
  match d with
  | .array [name, schema, readOnly, columns] => do
    some
      { name := ← name.text?
        schema := ← schema.text?
        readOnly := ← readOnly.flag?
        columns := ← columns? columns }
  | _ => do
    let fields ← d.fields?
    some
      { name := ← fields.required? "name" Document.text?
        schema := ← fields.optional? "schema" "" Document.text?
        readOnly := ← fields.optional? "read_only" false Document.flag?
        columns := ← fields.required? "columns" columns? }

def toDocument (e : Entity) : Document :=
  .object
    [(some "name", .text e.name), (some "schema", .text e.schema),
      (some "read_only", .bool e.readOnly),
      (some "columns", .array (e.columns.map Column.toDocument))]

end Entity

namespace Schema

def ofDocument? (outer : Nat) (d : Document) : Option Schema :=
  let entities? := Document.list? (Entity.ofDocument? (outer + 2))
  match d with
  | .array [name] => do some ⟨← name.text?, [], []⟩
  | .array [name, tables] => do some ⟨← name.text?, ← entities? tables, []⟩
  | .array [name, tables, views] => do
    some ⟨← name.text?, ← entities? tables, ← entities? views⟩
  | _ => do
    let fields ← d.fields?
    some
      { name := ← fields.required? "name" Document.text?
        tables := ← fields.optional? "entities" [] entities?
        views := ← fields.optional? "views" [] entities? }

def toDocument (s : Schema) : Document :=
  .object
    [(some "name", .text s.name), (some "entities", .array (s.tables.map Entity.toDocument)),
      (some "views", .array (s.views.map Entity.toDocument))]

end Schema

namespace Catalog

def ofDocument? (d : Document) : Option Catalog :=
  let schemas? := Document.list? (Schema.ofDocument? 3)
  match d with
  | .array [schemas] => (schemas? schemas).map Catalog.mk
  | _ => do some ⟨← (← d.fields?).required? "schemas" schemas?⟩

def toDocument (c : Catalog) : Document :=
  .object [(some "schemas", .array (c.schemas.map Schema.toDocument))]

def toText (c : Catalog) : String := c.toDocument.toText

inductive LoadError
  /-- The text is not the document of a catalog. -/
  | unreadable
  | invalid (error : CatalogError)
deriving DecidableEq, Repr

/-- Reads a document, normalizes the catalog and checks it. -/
def load (text : String) : Except LoadError Catalog :=
  match (Document.read? text.toList).bind ofDocument? with
  | none => .error .unreadable
  | some c =>
    match c.normalized.check with
    | .ok () => .ok c.normalized
    | .error e => .error (.invalid e)

end Catalog

/-- One entity by itself, as it stands in its document. -/
def Entity.read? (text : String) : Option Entity :=
  (Document.read? text.toList).bind (Entity.ofDocument? 1)

/-- One column by itself, as it stands in its document. -/
def Column.read? (text : String) : Option Column :=
  (Document.read? text.toList).bind (Column.ofDocument? 1)

end TableGateway
