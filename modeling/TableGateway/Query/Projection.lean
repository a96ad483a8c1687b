import TableGateway.Query.Include

/-!
# Projections

The columns that a list or a read returns: columns of the queried entity by their names, columns of
an included entity as `entity.column`, or everything.
-/

namespace TableGateway

inductive SelectItem
  /-- All columns of the queried entity. -/
  | wildcard (aliasName : String)
  /-- One column, under a label when it belongs to an included entity. -/
  | column (aliasName column : String) (label : Option String) (type : DataType)
deriving DecidableEq, Repr

namespace SelectItem

def ofColumn (e : Entity) (c : Column) : SelectItem := .column e.aliasName c.name none c.type

def ofIncluded (e : Entity) (c : Column) : SelectItem :=
  .column e.aliasName c.name (some s!"{e.name}.{c.name}") c.type

def included? (catalog : Catalog) (joins : List Join) (table : String) : Option Entity :=
  (joins.find? fun j => Text.sameName j.childTable table).bind fun j =>
    catalog.entity? j.childSchema j.childTable

def qualified? (catalog : Catalog) (e : Entity) (joins : List Join) (table column : String) :
    Option SelectItem :=
  if Text.sameName table e.name then (e.column? column).map (ofColumn e)
  else
    (included? catalog joins table).bind fun related =>
      (related.column? column).map (ofIncluded related)

def read (catalog : Catalog) (e : Entity) (joins : List Join) (name : String) :
    Except QueryError SelectItem :=
  let item? :=
    match Text.cut? '.' name with
    | some (table, rest) => qualified? catalog e joins table rest
    | none => (e.column? name).map (ofColumn e)
  match item? with
  | some item => .ok item
  | none => .error (.invalidField name)

def append (items : List SelectItem) (item : SelectItem) : List SelectItem :=
  if item ∈ items then items else items ++ [item]

/-- Reads a projection. A blank one and one with a `*` among its names select everything. -/
def compile (catalog : Catalog) (e : Entity) (joins : List Join) (raw : String) :
    Except QueryError (List SelectItem) :=
  let names := (Text.split (· = ',') raw).map Text.trimmed
  if Text.isBlankText raw || names.contains "*" then .ok [.wildcard e.aliasName]
  else do
    let items ← names.mapM (read catalog e joins)
    .ok (items.foldl append [])

end SelectItem

end TableGateway
