import TableGateway.Query.Error
import TableGateway.Text.Basic

/-!
# Sort lists

Keys are separated by commas; each is a column with an optional direction after a colon.
-/

namespace TableGateway

inductive Direction
  | ascending | descending
deriving DecidableEq, Repr

/-- A column to sort by, in its catalog spelling. -/
structure SortKey where
  aliasName : String
  column : String
  direction : Direction
deriving DecidableEq, Repr

namespace Direction

def read (s : String) : Except QueryError Direction :=
  if Text.sameName s "asc" then .ok .ascending
  else if Text.sameName s "desc" then .ok .descending
  else .error (.invalidSortDirection s)

end Direction

namespace SortKey

/-- A letter followed by letters, digits and underscores, all of them ASCII. -/
def isIdentifier (s : String) : Bool :=
  match s.toList with
  | [] => false
  | c :: cs => c.isAlpha && cs.all fun c => c.isAlphanum || c = '_'

def onColumn (e : Entity) (name : String) (direction : Direction) : Except QueryError SortKey :=
  if !isIdentifier name then .error (.invalidSortColumn name)
  else
    match e.column? name with
    | some c => .ok ⟨e.aliasName, c.name, direction⟩
    | none => .error (.unknownColumn e.name name)

/-- The name and the direction of a key. -/
def parts (key : String) : Except QueryError (String × Direction) :=
  match (Text.split (· = ':') key).map Text.trimmed with
  | [name] => .ok (name, .ascending)
  | [name, direction] => (Direction.read direction).map (name, ·)
  | _ => .error (.malformedSortKey key)

def read (e : Entity) (key : String) : Except QueryError SortKey := do
  let (name, direction) ← parts key
  if name = "" then .error (.malformedSortKey key) else onColumn e name direction

/-- Reads a sort list; a blank one has no keys. -/
def compile (e : Entity) (raw : String) : Except QueryError (List SortKey) :=
  if Text.isBlankText raw then .ok []
  else (Text.split (· = ',') raw).mapM fun key => read e (Text.trimmed key)

end SortKey

end TableGateway
