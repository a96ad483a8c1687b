import TableGateway.Access.Gate
import TableGateway.Json.Record

/-!
# Grant documents

The JSON form of a list of grants. The first of the members `user` and `role` says who holds a
grant. Other unknown members are passed over, but they must denote values.
-/

namespace TableGateway

open Json

namespace GrantHolder

def ofMember? (name : String) (d : Document) : Option (Option GrantHolder) :=
  match name with
  | "user" => some (d.text?.map .user)
  | "role" => some (d.text?.map .role)
  | _ => none

def ofFields? (fields : Document.Fields) : Option GrantHolder :=
  (fields.findSome? fun (name, d) => ofMember? name d).join

def member : GrantHolder → Option String × Document
  | .user id => (some "user", .text id)
  | .role name => (some "role", .text name)

end GrantHolder

namespace Grant

def fieldNames : List String := ["domain", "entity", "id", "access"]

def ofDocument? (d : Document) : Option Grant := do
  let fields ← d.fields?
  guard (fields.othersReadable fieldNames 2)
  some
    { holder := ← GrantHolder.ofFields? fields
      domain := ← fields.required? "domain" Document.text?
      entity := ← fields.optional? "entity" none Document.optionalText?
      id := ← fields.optional? "id" none Document.optionalText?
      access := ← fields.required? "access" Document.text? }

def textOrNull (s : Option String) : Document := (s.map Document.text).getD .null

def toDocument (g : Grant) : Document :=
  .object
    [g.holder.member, (some "domain", .text g.domain), (some "entity", textOrNull g.entity),
      (some "id", textOrNull g.id), (some "access", .text g.access)]

end Grant

namespace Gate

def read? (text : String) : Option Gate :=
  (Document.read? text.toList).bind (Document.list? Grant.ofDocument?)

def toText (gate : Gate) : String := Document.toText (.array (gate.map Grant.toDocument))

end Gate

end TableGateway
