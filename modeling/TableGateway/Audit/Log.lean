import TableGateway.Sql.Selection

/-!
# The audit log

Every change of a row is recorded in a table of its own: when, by which method, on which resource,
with which status, and the change itself as a patch document. Names in the record are cut to the
width of their columns.
-/

namespace TableGateway

inductive Method
  | get | post | put | patch | delete
deriving DecidableEq, Repr

namespace Method

def all : List Method := [.get, .post, .put, .patch, .delete]

def code : Method → Int
  | .get => 1
  | .post => 2
  | .put => 3
  | .patch => 4
  | .delete => 5

def title : Method → String
  | .get => "Get"
  | .post => "Post"
  | .put => "Put"
  | .patch => "Patch"
  | .delete => "Delete"

end Method

structure AuditEvent where
  date : Instant
  method : Method
  domain : String
  entity : String
  id : String
  status : Int
  patch : String

def AuditEvent.toDocument (e : AuditEvent) : Json.Document :=
  .object
    [(some "event_date", .text e.date.toZulu), (some "http_method", .text e.method.title),
      (some "domain", .text e.domain), (some "entity", .text e.entity), (some "id", .text e.id),
      (some "status", .number (.int e.status)), (some "patch", .text e.patch)]

structure AuditTable where
  schema : String := "dbrest"
  table : String := "patch_log"
deriving DecidableEq, Repr

namespace AuditTable

/-- The width of the columns for names, in characters. -/
def width : Nat := 128

def cut (s : String) : String := String.ofList (s.toList.take width)

def record (e : AuditEvent) : List (String × BoundValue × DataType) :=
  [("event_date", .instant e.date, .datetime), ("http_method", .int e.method.code, .other),
    ("domain", .text (cut e.domain), .text), ("entity", .text (cut e.entity), .text),
    ("id", .text (cut e.id), .text), ("status", .int e.status, .other),
    ("patch", .text e.patch, .text)]

open Draft in
def insert (t : AuditTable) (d : Dialect) (e : AuditEvent) : Statement :=
  let names := (record e).map fun (name, _, _) => [Part.name name]
  let placeholders := (record e).map fun (name, v, type) => [Part.value name v (some type)]
  { dialect := d
    draft := spaced
      [words [.INSERT, .INTO], d.table t.schema t.table, enclosed (listed names),
        [.keyword .VALUES], enclosed (listed placeholders)] }

def columnLines : List String :=
  ["pk BIGINT GENERATED ALWAYS AS IDENTITY PRIMARY KEY,",
    "event_date TIMESTAMPTZ NOT NULL DEFAULT NOW(),",
    "http_method SMALLINT NOT NULL,",
    s!"domain VARCHAR({width}) NOT NULL,",
    s!"entity VARCHAR({width}) NOT NULL,",
    s!"id VARCHAR({width}) NOT NULL,",
    "status INTEGER NOT NULL,",
    "patch TEXT NOT NULL DEFAULT '[]'"]

/-- A line of the table definition, which is set off by blanks. -/
def line (indent : Nat) (s : String) : String :=
  "\n" ++ String.ofList (List.replicate indent ' ') ++ s

/-- The statements that make the schema and the table where they are missing. -/
def definitions (t : AuditTable) (d : Dialect) : List String :=
  let table := (d.table t.schema t.table).toText d
  ["CREATE SCHEMA IF NOT EXISTS " ++ String.ofList (d.quote t.schema),
    line 12 s!"CREATE TABLE IF NOT EXISTS {table} (" ++
      String.join (columnLines.map (line 16)) ++ line 12 ")" ++ line 12 ""]

end AuditTable

end TableGateway
