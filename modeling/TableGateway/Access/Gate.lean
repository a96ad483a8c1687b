import TableGateway.Access.Permission

/-!
# The gate

What a principal may do with a resource: what its roles bring, and what is granted to it or to one
of its roles. A grant covers a domain, or one entity of it, or one resource of the entity. A grant
whose access text is not understood counts for nothing.
-/

namespace TableGateway

structure Principal where
  user : Option String := none
  roles : List String := []
deriving DecidableEq, Repr

/-- What a request is about; a collection has no id. -/
structure Target where
  domain : String
  entity : String
  id : Option String
deriving DecidableEq, Repr

inductive GrantHolder
  | user (id : String)
  | role (name : String)
deriving DecidableEq, Repr

structure Grant where
  holder : GrantHolder
  domain : String
  entity : Option String
  id : Option String
  access : String
deriving DecidableEq, Repr

inductive Operation
  | list | read | create (bulk : Bool) | replace | patch | delete | options
deriving DecidableEq, Repr

/-- The capabilities that an operation requires together. -/
def Operation.required : Operation → Permission
  | .list => .single .search
  | .read => .single .get
  | .create false => .single .post
  | .create true => .ofList [.post, .bulk]
  | .replace => .single .put
  | .patch => .single .patch
  | .delete => .single .delete
  | .options => .single .options

namespace Grant

/-- User ids must be equal; roles may differ in case. -/
def heldBy (g : Grant) (p : Principal) : Bool :=
  match g.holder with
  | .user id => p.user = some id
  | .role name => p.roles.any fun r => Text.sameName r name

def covers (g : Grant) (t : Target) : Bool :=
  Text.sameName g.domain t.domain &&
    (g.entity.map fun e => Text.sameName e t.entity).getD true &&
    (g.id.isNone || g.id = t.id)

/-- What the grant gives to the principal on the target. -/
def permission (g : Grant) (p : Principal) (t : Target) : Permission :=
  if g.heldBy p && g.covers t then (Permission.ofAccess? g.access).getD .empty else .empty

end Grant

abbrev Gate := List Grant

namespace Gate

/-- Everything that roles and grants give together. -/
def effective (gate : Gate) (p : Principal) (t : Target) : Permission :=
  let ofRoles := p.roles.filterMap fun r => (Role.ofName? r).map Role.permission
  (ofRoles ++ gate.map fun g => g.permission p t).foldl Permission.union .empty

def allows (gate : Gate) (p : Principal) (op : Operation) (t : Target) : Bool :=
  (gate.effective p t).contains op.required

end Gate

end TableGateway
