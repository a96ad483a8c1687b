import TableGateway.Text.Basic

/-!
# Catalogs

A catalog lists schemas, their tables and views, and the columns of each. All names are looked up
without regard to ASCII case, and the first match counts. A catalog in use is normalized: every
entity carries the name of its schema, and views are read-only with computed columns.
-/

namespace TableGateway

/-- The logical type of a column. It decides which literals the column takes. -/
inductive DataType
  | integer | decimal | float | text | boolean | datetime | date | time | uuid | json | other
deriving DecidableEq, Repr

namespace DataType

def name : DataType → String
  | .integer => "integer"
  | .decimal => "decimal"
  | .float => "float"
  | .text => "text"
  | .boolean => "boolean"
  | .datetime => "datetime"
  | .date => "date"
  | .time => "time"
  | .uuid => "uuid"
  | .json => "json"
  | .other => "other"

/-- A type by its name; an unknown name means a type without literals of its own. -/
def ofName : String → DataType
  | "integer" => .integer
  | "decimal" => .decimal
  | "float" => .float
  | "text" => .text
  | "boolean" => .boolean
  | "datetime" | "timestamp" | "timestamptz" => .datetime
  | "date" => .date
  | "time" => .time
  | "uuid" => .uuid
  | "json" => .json
  | _ => .other

theorem ofName_name (t : DataType) : ofName t.name = t := by
  cases t <;> rfl

def description : DataType → String
  | .integer => "an integer"
  | .decimal | .float => "a number"
  | .text => "text"
  | .boolean => "true or false"
  | .datetime => "an ISO-8601 date/time"
  | .date => "a date (YYYY-MM-DD)"
  | .time => "a time (HH:MM:SS)"
  | .uuid => "a uuid"
  | .json => "json"
  | .other => "a value"

end DataType

structure Column where
  name : String
  type : DataType
  primaryKey : Bool := false
  foreignKey : Bool := false
  autoNumber : Bool := false
  computed : Bool := false
  unique : Bool := false
  indexed : Bool := false
  /-- The table a foreign key points at, as `table` or `schema.table`. -/
  target : Option String := none
deriving DecidableEq, Repr

structure Entity where
  name : String
  schema : String
  readOnly : Bool
  columns : List Column
deriving DecidableEq, Repr

structure Schema where
  name : String
  tables : List Entity
  views : List Entity
deriving DecidableEq, Repr

structure Catalog where
  schemas : List Schema
deriving DecidableEq, Repr

/-- The name under which a table appears in statements. -/
def tableAlias (table : String) : String := "t_" ++ table

namespace Column

/-- The database fills the column in, so it is never written. -/
def isGenerated (c : Column) : Bool := c.autoNumber || c.computed

def refersTo (c : Column) (e : Entity) : Bool :=
  c.foreignKey &&
    match c.target with
    | none => false
    | some target =>
      match Text.cut? '.' target with
      | some (schema, table) => Text.sameName schema e.schema && Text.sameName table e.name
      | none => Text.sameName target e.name

end Column

namespace Entity

def column? (e : Entity) (name : String) : Option Column :=
  e.columns.find? fun c => Text.sameName c.name name

def primaryKey? (e : Entity) : Option Column := e.columns.find? Column.primaryKey

def aliasName (e : Entity) : String := tableAlias e.name

/-- A view cannot be written, as a whole or in any column. -/
def asView (e : Entity) : Entity :=
  { e with readOnly := true, columns := e.columns.map fun c => { c with computed := true } }

end Entity

namespace Schema

/-- Tables, then views. -/
def entities (s : Schema) : List Entity := s.tables ++ s.views

def entity? (s : Schema) (name : String) : Option Entity :=
  s.entities.find? fun e => Text.sameName e.name name

def normalized (s : Schema) : Schema :=
  { s with
    tables := s.tables.map fun e => { e with schema := s.name }
    views := s.views.map fun e => { e with schema := s.name }.asView }

theorem normalized_normalized (s : Schema) : s.normalized.normalized = s.normalized := by
  simp [normalized, Entity.asView, Function.comp_def]

end Schema

namespace Catalog

def normalized (c : Catalog) : Catalog := ⟨c.schemas.map Schema.normalized⟩

theorem normalized_normalized (c : Catalog) : c.normalized.normalized = c.normalized := by
  simp [normalized, Function.comp_def, Schema.normalized_normalized]

def entities (c : Catalog) : List Entity := c.schemas.flatMap Schema.entities

def schema? (c : Catalog) (name : String) : Option Schema :=
  c.schemas.find? fun s => Text.sameName s.name name

def entity? (c : Catalog) (schema name : String) : Option Entity :=
  (c.schema? schema).bind fun s => s.entity? name

/-- An entity named from inside a schema: `schema.table`, or a table of the same schema, or else
one of any schema. -/
def related? (c : Catalog) (schema name : String) : Option Entity :=
  match Text.cut? '.' name with
  | some (other, table) => c.entity? other table
  | none =>
    (c.entity? schema name).or (c.entities.find? fun e => Text.sameName e.name name)

end Catalog

end TableGateway
