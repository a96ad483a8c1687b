import TableGateway.Service.Cell
import TableGateway.Service.Error
import TableGateway.Sql.Selection

/-!
# Database sessions

A session sends commands to a database and keeps a log of them. What the database answers is given
beforehand: a reply for each statement in turn, and whether it refuses to begin or to commit. A
transaction ends in a commit that succeeds, or else in a rollback.
-/

namespace TableGateway

inductive Pool
  | read | write
deriving DecidableEq, Repr

inductive Command
  | begin | commit | rollback
  | statement (text : String) (values : List BoundValue)

/-- A command and the pool that it was sent to. -/
structure Sent where
  pool : Pool
  command : Command

inductive Reply
  | rows (columns : List String) (rows : List (List Cell))
  /-- No rows, but this many were affected. -/
  | affected (count : Nat)
  | refused (state message : String)

/-- How a database behaves. Statements beyond the replies return no rows. -/
structure Database where
  replies : List Reply := []
  refusesBegin : Bool := false
  refusesCommit : Bool := false
  /-- Why the database cannot be reached, if it cannot. -/
  unreachable : Option String := none
  /-- Why the count of a list cannot be read as a 64 bit integer, when it is none. -/
  countFault : String := ""

structure Session where
  database : Database
  log : List Sent := []

/-- A computation that talks to the database and may fail. The log is kept when it fails. -/
abbrev Action := ExceptT ServiceError (StateM Session)

namespace Reply

def rowCount : Reply → Nat
  | .rows _ content => content.length
  | .affected count => count
  | .refused .. => 0

def rowsJson : Reply → List Json
  | .rows columns content => content.map (rowJson columns)
  | _ => []

end Reply

namespace Action

def ofExcept {α : Type} (x : Except ServiceError α) : Action α := ExceptT.mk (pure x)

def fail {α : Type} (e : DatabaseError) : Action α := throw (.database e)

def record (pool : Pool) (command : Command) : Action Unit :=
  modify fun s => { s with log := s.log ++ [⟨pool, command⟩] }

/-- Fails when the database cannot be reached. -/
def connect : Action Unit := do
  match (← get).database.unreachable with
  | some reason => fail (.unreachable reason)
  | none => pure ()

def nextReply : Action Reply := do
  let s ← get
  match s.database.replies with
  | [] => pure (.rows [] [])
  | reply :: replies =>
    set { s with database := { s.database with replies } }
    pure reply

def send (pool : Pool) (text : String) (values : List BoundValue) : Action Reply := do
  connect
  record pool (.statement text values)
  match ← nextReply with
  | .refused state message => fail (.refused state message)
  | reply => pure reply

def execute (pool : Pool) (s : Statement) : Action Reply := send pool s.text s.parameters.values

/-- The error state of a command that is refused for no reason of its own. -/
def internalError : String := "XX000"

def beginTransaction : Action Unit := do
  connect
  record .write .begin
  if (← get).database.refusesBegin then fail (.refused internalError "BEGIN failed")

def commitTransaction : Action Unit := do
  record .write .commit
  if (← get).database.refusesCommit then fail (.refused internalError "COMMIT failed")

/-- Runs `body` in a transaction on the write pool. The transaction is committed when `body` has a
result, and rolled back when it has none or fails, or when the commit fails. -/
def transaction {α : Type} (body : Action (Option α)) : Action (Option α) := do
  beginTransaction
  try
    match ← body with
    | none =>
      record .write .rollback
      pure none
    | some x =>
      commitTransaction
      pure (some x)
  catch e =>
    record .write .rollback
    throw e

end Action

end TableGateway
