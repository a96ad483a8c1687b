import TableGateway.BoundValue

/-!
# Valid bodies

The members of a body must name columns of the entity and convert to their types. All problems of a
body are reported together.
-/

namespace TableGateway

inductive BodyProblem
  | unknownColumn (key entity : String)
  | invalidValue (error : QueryError)
  /-- A key or a generated column in a patch. -/
  | unpatchable (column : String)

inductive BodyFault
  | notObject
  | noItems
  | problems (ps : List BodyProblem)

def BodyProblem.message : BodyProblem → String
  | .unknownColumn key entity => s!"{key} is not a column of {entity}"
  | .invalidValue error => error.message
  | .unpatchable column => s!"{column} cannot be patched"

def BodyFault.message : BodyFault → String
  | .notObject => "body must be a JSON object"
  | .noItems => "empty array"
  | .problems ps => "; ".intercalate (ps.map BodyProblem.message)

namespace Body

def memberProblems (e : Entity) (member : String × Json) : List BodyProblem :=
  match e.column? member.1 with
  | none => [.unknownColumn member.1 e.name]
  | some c =>
    match BoundValue.ofJson c member.2 with
    | .ok _ => []
    | .error fault => [.invalidValue fault]

def setProblems (e : Entity) (set : String × Json) : List BodyProblem :=
  let isProtected (c : Column) : Bool := c.isGenerated || c.primaryKey
  memberProblems e set ++
    if (e.column? set.1).any isProtected then [.unpatchable set.1] else []

def accept {α : Type} (x : α) (ps : List BodyProblem) : Except BodyFault α :=
  if ps.isEmpty then .ok x else .error (.problems ps)

/-- The members of a body that may be written. Generated columns are no problem here. -/
def validate (e : Entity) (body : Json) : Except BodyFault (List (String × Json)) :=
  match body with
  | .object members => accept members (members.flatMap (memberProblems e))
  | _ => .error .notObject

def validateSets (e : Entity) (sets : List (String × Json)) : Except BodyFault Unit :=
  accept () (sets.flatMap (setProblems e))

/-- The bodies of a request that creates: one, or those of an array. -/
def items (body : Json) : Except BodyFault (List Json) :=
  match body with
  | .array [] => .error .noItems
  | .array items => .ok items
  | body => .ok [body]

end Body

end TableGateway
