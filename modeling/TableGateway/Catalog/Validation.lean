import TableGateway.Catalog.Basic
import TableGateway.Text.Lowercase

/-!
# Valid catalogs

In a valid catalog the entities of a schema have different names, in the sense of full Unicode
lower case, no entity has two primary key columns, and every foreign key leads to an entity. All
schemas are checked for the first two faults before any foreign key is followed.
-/

namespace TableGateway

inductive CatalogError
  | duplicateEntity (schema entity : String)
  | multiplePrimaryKeys (entity : String)
  | missingTarget (entity column : String)
  | missingTable (target : String)
deriving DecidableEq, Repr

namespace CatalogError

def message : CatalogError → String
  | .duplicateEntity schema entity => s!"duplicate entity '{entity}' in schema '{schema}'"
  | .multiplePrimaryKeys entity => s!"entity '{entity}' declares more than one primary key column"
  | .missingTarget entity column => s!"missing reference: foreign key target '{entity}.{column}'"
  | .missingTable target => s!"missing reference: table '{target}'"

end CatalogError

namespace Entity

def hasOneKey (e : Entity) : Bool := (e.columns.filter Column.primaryKey).length ≤ 1

end Entity

namespace Schema

/-- Checks entities against the lower-cased names of those before them. -/
def checkEntities (schema : String) (seen : List String) : List Entity → Except CatalogError Unit
  | [] => .ok ()
  | e :: es =>
    let name := Text.lowercase e.name
    if seen.contains name then .error (.duplicateEntity schema e.name)
    else if e.hasOneKey then checkEntities schema (name :: seen) es
    else .error (.multiplePrimaryKeys e.name)

def check (s : Schema) : Except CatalogError Unit := checkEntities s.name [] s.entities

end Schema

namespace Catalog

def checkColumn (c : Catalog) (e : Entity) (column : Column) : Except CatalogError Unit :=
  if column.foreignKey then
    match column.target with
    | none => .error (.missingTarget e.name column.name)
    | some target =>
      if (c.related? e.schema target).isSome then .ok () else .error (.missingTable target)
  else .ok ()

def checkTargets (c : Catalog) (e : Entity) : Except CatalogError Unit :=
  e.columns.forM (c.checkColumn e)

def check (c : Catalog) : Except CatalogError Unit := do
  c.schemas.forM Schema.check
  c.entities.forM c.checkTargets

end Catalog

end TableGateway
