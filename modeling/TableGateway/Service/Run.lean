import TableGateway.Catalog.Document
import TableGateway.Patch.Change
import TableGateway.Service.Response
import TableGateway.Service.Session
import TableGateway.Service.Task

/-!
# Running tasks

Reads use the read pool. Every change runs in one transaction on the write pool, in which each
statement on a row is followed by the record of the change. All rows are changed and recorded, or
none.
-/

namespace TableGateway

namespace Mutation

def firstRow (statement : Statement) : Action (Option Json) := do
  let reply ← Action.execute .write statement
  pure reply.rowsJson.head?

/-- The row after a change, if there was one to change. -/
def run (m : Mutation) : Action (Option Json) := do
  let row ← firstRow m.statement
  match m.selectBack with
  | none => pure row
  | some statement => firstRow statement

end Mutation

namespace Entity

/-- The key in a row as text; empty when it is not there. -/
def keyText (e : Entity) (row : Json) : String :=
  match e.primaryKey?.bind fun key => row.member? key.name with
  | some (.text s) => s
  | some j => j.toText
  | none => ""

/-- How the resource is named when it is not found. -/
def resource (e : Entity) (id : String) : String := s!"{e.name} {id}"

end Entity

namespace Server

variable (s : Server) (place : Call.Place)

/-- Records a change of a resource. -/
def recordChange (method : Method) (e : Entity) (id : String) (status : Int)
    (patch : List PatchOperation) : Action Unit := do
  let event : AuditEvent :=
    { date := s.now, method, domain := place.domain, entity := e.name, id, status
      patch := (PatchOperation.listToDocument patch).toText }
  let _ ← Action.execute .write (s.audit.insert .postgres event)

/-- Changes a row that must be there, and records it. -/
def createRow (e : Entity) (m : Mutation) : Action Json := do
  match ← m.run with
  | none => Action.fail .noRows
  | some row =>
    let id := e.keyText row
    s.recordChange place .post e id 201 (PatchOperation.ofCreated id row)
    pure row

def patchRow (e : Entity) (item : SubPatch × Mutation) : Action Json := do
  let (sub, m) := item
  match ← m.run with
  | none => throw (.notFound (e.resource sub.id))
  | some row =>
    s.recordChange place .patch e sub.id 200 sub.operations
    pure row

/-- The count that a list comes with. -/
def countOf (fault : String) : Reply → Except DatabaseError Int
  | .rows _ ((.int64 n :: _) :: _) => .ok n
  | .rows _ ([] :: _) => .error .noColumn
  | .rows _ (_ :: _) => .error (.badCount fault)
  | _ => .error .noRows

def runList (statements : ListStatements) (offset : Int) : Action Response := do
  let page ← Action.execute .read statements.select
  let counted ← Action.execute .read statements.count
  let session ← get
  match countOf session.database.countFault counted with
  | .error e => Action.fail e
  | .ok total =>
    let rows := page.rowsJson
    pure { Response.many 200 rows with contentRange := contentRange offset rows.length total }

def runRead (e : Entity) (id : String) (statement : Statement) : Action Response := do
  let reply ← Action.execute .read statement
  match reply.rowsJson with
  | row :: _ => pure (.one 200 row)
  | [] => throw (.notFound (e.resource id))

def runCreate (e : Entity) (bulk : Bool) (rows : List Mutation) : Action Response := do
  let created ← Action.transaction do
    let created ← rows.mapM (s.createRow place e)
    pure (some created)
  let created := created.getD []
  pure (if bulk then .many 201 created else .one 201 (created.getLast?.getD .null))

def runReplace (e : Entity) (id : String) (members : List (String × Json)) (m : Mutation) :
    Action Response := do
  let row? ← Action.transaction do
    match ← m.run with
    | none => pure none
    | some row =>
      s.recordChange place .put e id 200 (PatchOperation.ofReplaced id members)
      pure (some row)
  match row? with
  | some row => pure (.one 200 row)
  | none => throw (.notFound (e.resource id))

def runPatch (e : Entity) (operations : List PatchOperation) (rows : List (SubPatch × Mutation)) :
    Action Response := do
  let patched ← Action.transaction do
    let patched ← rows.mapM (s.patchRow place e)
    pure (some patched)
  pure
    { Response.many 200 (patched.getD []) with
      patchChanges := PatchOperation.headerText? operations }

def runDelete (e : Entity) (id : String) (statement : Statement) : Action Response := do
  let deleted? ← Action.transaction do
    let reply ← Action.execute .write statement
    if reply.rowCount = 0 then pure none
    else
      s.recordChange place .delete e id 204 (PatchOperation.ofDeleted id)
      pure (some ())
  match deleted? with
  | some () => pure { status := 204 }
  | none => throw (.notFound (e.resource id))

def describe (e : Entity) : Response :=
  let body := Json.ofMembers
    [("entity", .text e.name), ("schema", .text e.schema), ("read_only", .bool e.readOnly),
      ("columns", .array (e.columns.map Column.toJson))]
  { Response.json 200 body.toDocument with
    allow := if e.readOnly then "GET, OPTIONS" else "GET, POST, PATCH, OPTIONS" }

def run (task : Task) : Action Response :=
  match task with
  | .list statements offset => runList statements offset
  | .read e id statement => runRead e id statement
  | .create e bulk rows => s.runCreate place e bulk rows
  | .replace e id members row => s.runReplace place e id members row
  | .patch e operations rows => s.runPatch place e operations rows
  | .delete e id statement => s.runDelete place e id statement
  | .describe e => pure (describe e)

def ensureAudit : Action Unit :=
  (s.audit.definitions .postgres).forM fun text => do
    let _ ← Action.send .write text []

def answers (pool : Pool) : Action Bool := do
  try
    let _ ← Action.send pool "SELECT 1" []
    pure true
  catch _ => pure false

end Server

end TableGateway
