import TableGateway.Query.Error
import TableGateway.Text.Basic
import TableGateway.Text.Lowercase

/-!
# Included entities

An include names a path of entities that starts at the queried one. Every hop follows a foreign
key: one of the parent to the child if there is one, or else one of the child back to the parent.
The other side joins on its primary key.
-/

namespace TableGateway

/-- A hop of the path with the two columns that must agree. -/
structure Join where
  childSchema : String
  childTable : String
  childColumn : String
  parentTable : String
  parentColumn : String
deriving DecidableEq, Repr

namespace Join

def childAlias (j : Join) : String := tableAlias j.childTable

def parentAlias (j : Join) : String := tableAlias j.parentTable

def between (parent child : Entity) (parentColumn childColumn : Column) : Join :=
  ⟨child.schema, child.name, childColumn.name, parent.name, parentColumn.name⟩

def reference? (e target : Entity) : Option Column := e.columns.find? fun c => c.refersTo target

def hop (parent child : Entity) : Except StatementError Join :=
  match reference? parent child with
  | some reference => child.requireKey.map fun key => between parent child reference key
  | none =>
    match reference? child parent with
    | some reference => parent.requireKey.map fun key => between parent child key reference
    | none => .error (.query (.noRelationship parent.name child.name))

/-- Follows the hops from `parent`. The lower-cased names in `visited` are not entered again. -/
def path (catalog : Catalog) (raw : String) (visited : List String) (parent : Entity) :
    List String → Except StatementError (List Join)
  | [] => .ok []
  | name :: names =>
    if name = "" then .error (.query (.malformedInclude raw))
    else
      match catalog.related? parent.schema name with
      | none => .error (.query (.unknownEntity name))
      | some child =>
        if visited.contains (Text.lowercase child.name) then
          .error (.query (.duplicateInclude child.name))
        else do
          let join ← hop parent child
          let joins ← path catalog raw (visited ++ [Text.lowercase child.name]) child names
          .ok (join :: joins)

def hopNames (raw : String) : List String :=
  (Text.split (fun c => c = ',' || c = '.') raw).map Text.trimmed

/-- Reads an include from an entity; a blank one has no hops. -/
def compile (catalog : Catalog) (e : Entity) (raw : String) : Except StatementError (List Join) :=
  if Text.isBlankText raw then .ok []
  else path catalog raw [Text.lowercase e.name] e (hopNames raw)

end Join

end TableGateway
