import TableGateway.Audit.Log
import TableGateway.Patch.Document
import TableGateway.Patch.Split
import TableGateway.Service.Error
import TableGateway.Sql.Mutation

/-!
# From calls to tasks

A call is what a request asks for, a task what is to be done for it, with all statements made. The
step between them needs no database: it authorizes the caller first, then looks the entity up, and
checks all input. So a call that is denied or faulty sends nothing, and a denied caller learns
nothing from the catalog.
-/

namespace TableGateway

structure Server where
  catalog : Catalog
  gate : Gate
  limits : PagingLimits
  audit : AuditTable
  trustRoleHeaders : Bool
  maxBodyBytes : Nat
  /-- The time that is recorded for changes. -/
  now : Instant

/-- What is asked of the entity `entity` of the schema `domain`. -/
structure Call.Place where
  domain : String
  entity : String
deriving DecidableEq, Repr

inductive Call
  | list (parameters : List (String × String))
  | read (id : String) (parameters : List (String × String))
  | create (body : Json)
  | replace (id : String) (body : Json)
  | patchMany (body : Json)
  | patchOne (id : String) (body : Json)
  | delete (id : String)
  | options

inductive Task
  | list (statements : ListStatements) (offset : Int)
  | read (e : Entity) (id : String) (statement : Statement)
  | create (e : Entity) (bulk : Bool) (rows : List Mutation)
  | replace (e : Entity) (id : String) (members : List (String × Json)) (row : Mutation)
  | patch (e : Entity) (operations : List PatchOperation) (rows : List (SubPatch × Mutation))
  | delete (e : Entity) (id : String) (statement : Statement)
  | describe (e : Entity)

namespace Server

variable (s : Server) (p : Principal) (place : Call.Place)

def authorize (op : Operation) (id : Option String) : Except ServiceError Unit :=
  s.gate.authorize p op ⟨place.domain, place.entity, id⟩

def lookUp : Except ServiceError Entity :=
  match s.catalog.entity? place.domain place.entity with
  | some e => .ok e
  | none => .error (.notFound s!"{place.domain}/{place.entity}")

def lookUpWritable : Except ServiceError Entity := do
  let e ← s.lookUp place
  if e.readOnly then .error (.readOnly e.name) else .ok e

def plan (e : Entity) (parameters : List (String × String)) : Except ServiceError QueryPlan := do
  let o ← (QueryOptions.ofParameters parameters).mapError ServiceError.ofQuery
  (QueryPlan.compile s.catalog e s.limits o).mapError ServiceError.statement

def prepareList (parameters : List (String × String)) : Except ServiceError Task := do
  s.authorize p place .list none
  let e ← s.lookUp place
  let q ← s.plan e parameters
  .ok (.list (Statement.list .postgres e q) q.paging.offset)

def prepareRead (id : String) (parameters : List (String × String)) :
    Except ServiceError Task := do
  s.authorize p place .read (some id)
  let e ← s.lookUp place
  let q ← s.plan e parameters
  let statement ← (Statement.read .postgres e q id).mapError ServiceError.statement
  .ok (.read e id statement)

def insertion (e : Entity) (members : List (String × Json)) : Except ServiceError Mutation :=
  (Mutation.insert .postgres e members).mapError ServiceError.statement

def prepareCreate (body : Json) : Except ServiceError Task := do
  s.authorize p place (.create body.isArray) none
  let e ← s.lookUpWritable place
  let bodies ← (Body.items body).mapError ServiceError.invalidBody
  let items ← (bodies.mapM (Body.validate e)).mapError ServiceError.invalidBody
  let rows ← items.mapM (insertion e)
  .ok (.create e body.isArray rows)

def prepareReplace (id : String) (body : Json) : Except ServiceError Task := do
  s.authorize p place .replace (some id)
  let e ← s.lookUpWritable place
  let members ← (Body.validate e body).mapError ServiceError.invalidBody
  let row ← (Mutation.update .postgres e id members).mapError ServiceError.statement
  .ok (.replace e id members row)

def patchFault {α : Type} (x : Except PatchFault α) : Except ServiceError α :=
  x.mapError fun f => .ofQuery (.invalidPatch f)

def rowPatch (e : Entity) (sub : SubPatch) : Except ServiceError (SubPatch × Mutation) := do
  let sets ← patchFault sub.columnSets
  (Body.validateSets e sets).mapError ServiceError.invalidBody
  let row ← (Mutation.update .postgres e sub.id sets).mapError ServiceError.statement
  .ok (sub, row)

/-- Every resource of the patch is authorized before the first one is looked at. A patch without
operations needs the permission on what the request is about. -/
def preparePatch (id : Option String) (operations : List PatchOperation) :
    Except ServiceError Task := do
  let subs ← patchFault (SubPatch.split operations)
  if subs.isEmpty then
    s.authorize p place .patch id
    .error .emptyPatch
  else
    subs.forM fun sub => s.authorize p place .patch (some sub.id)
    let e ← s.lookUpWritable place
    let rows ← subs.mapM (rowPatch e)
    .ok (.patch e operations rows)

def prepareDelete (id : String) : Except ServiceError Task := do
  s.authorize p place .delete (some id)
  let e ← s.lookUpWritable place
  let statement ← (Mutation.delete .postgres e id).mapError ServiceError.statement
  .ok (.delete e id statement)

def prepare (call : Call) : Except ServiceError Task :=
  match call with
  | .list parameters => s.prepareList p place parameters
  | .read id parameters => s.prepareRead p place id parameters
  | .create body => s.prepareCreate p place body
  | .replace id body => s.prepareReplace p place id body
  | .patchMany body => do
    let operations ← patchFault (PatchOperation.readAll body)
    s.preparePatch p place none operations
  | .patchOne id body => do
    let operations ← patchFault (PatchOperation.readAll body)
    s.preparePatch p place (some id) (operations.map (PatchOperation.inResource id))
  | .delete id => s.prepareDelete p place id
  | .options => do
    s.authorize p place .options none
    let e ← s.lookUp place
    .ok (.describe e)

end Server

end TableGateway
