import TableGateway.Access.Gate
import TableGateway.Body.Validation
import TableGateway.Query.Error

/-!
# Errors of the service

What a request is answered with when it fails: a status, a code and a message. The message of a
denied request says nothing about the resource.
-/

namespace TableGateway

inductive DatabaseError
  /-- The database cannot be reached, for this reason. -/
  | unreachable (reason : String)
  /-- The database answered with an error state and a message. -/
  | refused (state message : String)
  | noRows
  | noColumn
  /-- The count of a list cannot be read as a 64 bit integer, for this reason. -/
  | badCount (reason : String)

namespace DatabaseError

/-- The error state of a violated uniqueness constraint. -/
def uniqueViolation : String := "23505"

def message : DatabaseError → String
  | .unreachable reason => s!"error communicating with database: {reason}"
  | .refused _ message => s!"error returned from database: {message}"
  | .noRows => "no rows returned by a query that expected to return at least one row"
  | .noColumn => "column index out of bounds: the len is 0, but the index is 0"
  | .badCount reason => s!"error occurred while decoding column 0: {reason}"

end DatabaseError

inductive ServiceError
  | statement (error : StatementError)
  | forbidden
  | notFound (what : String)
  | readOnly (entity : String)
  | invalidBody (fault : BodyFault)
  | database (error : DatabaseError)
  | emptyPatch

namespace ServiceError

def ofQuery (error : QueryError) : ServiceError := .statement (.query error)

def message : ServiceError → String
  | .statement error => error.message
  | .forbidden => "forbidden"
  | .notFound what => s!"not found: {what}"
  | .readOnly entity => s!"method not allowed: {entity} is read-only"
  | .invalidBody fault => s!"validation: {fault.message}"
  | .database error => s!"database: {error.message}"
  | .emptyPatch => "bad request: patch document has no operations"

def statusAndCode : ServiceError → Nat × String
  | .statement (.query _) => (400, "invalid_query")
  | .statement (.missingPrimaryKey _) => (500, "schema_error")
  | .forbidden => (403, "forbidden")
  | .notFound _ => (404, "not_found")
  | .readOnly _ => (405, "method_not_allowed")
  | .invalidBody _ => (422, "validation_error")
  | .database .noRows => (404, "not_found")
  | .database (.refused state _) =>
    if state = DatabaseError.uniqueViolation then (409, "conflict") else (500, "database_error")
  | .database _ => (500, "database_error")
  | .emptyPatch => (400, "bad_request")

def status (e : ServiceError) : Nat := e.statusAndCode.1

def code (e : ServiceError) : String := e.statusAndCode.2

end ServiceError

/-- Lets an operation through only if the principal may carry it out. -/
def Gate.authorize (gate : Gate) (p : Principal) (op : Operation) (t : Target) :
    Except ServiceError Unit :=
  if gate.allows p op t then .ok () else .error .forbidden

end TableGateway
