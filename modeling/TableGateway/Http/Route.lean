import TableGateway.Http.Uri

/-!
# Routes

What the path of a request leads to. A collection has two segments and a resource three, of which
the last is not empty; three words alone lead to information about the server. Segments are kept as
they are written.
-/

namespace TableGateway

inductive Route
  | health
  | ready
  | version
  | collection (domain entity : List Char)
  | resource (domain entity id : List Char)
deriving DecidableEq, Repr

namespace Route

def ofWord? : String → Option Route
  | "health" => some .health
  | "ready" => some .ready
  | "version" => some .version
  | _ => none

def ofPath? (path : List Char) : Option Route :=
  match Uri.segments path with
  | [word] => ofWord? (String.ofList word)
  | [domain, entity] => if entity.isEmpty then none else some (.collection domain entity)
  | [domain, entity, id] => if id.isEmpty then none else some (.resource domain entity id)
  | _ => none

def methods : Route → List String
  | .health | .ready | .version => ["GET", "HEAD"]
  | .collection .. => ["GET", "HEAD", "POST", "PATCH", "OPTIONS"]
  | .resource .. => ["GET", "HEAD", "PUT", "PATCH", "DELETE"]

end Route

end TableGateway
