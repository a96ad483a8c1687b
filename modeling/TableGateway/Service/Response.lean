import TableGateway.Json.Document
import TableGateway.Service.Error

/-!
# Responses

A response has a status, the headers that mean something here, and a JSON body or none. The range of
a list says which rows of how many a page holds.
-/

namespace TableGateway

/-- The last position is the offset plus the number of rows, and does not grow beyond 64 bits. -/
def contentRange (offset returned total : Int) : String :=
  let last := min (offset + returned) Numeral.maxInt64
  String.ofList ("items ".toList ++ Text.signedDecimal offset ++ '-' :: Text.signedDecimal last ++
    '/' :: Text.signedDecimal total)

structure Response where
  status : Nat
  allow : Option String := none
  contentRange : Option String := none
  /-- The operations of a patch that was applied. -/
  patchChanges : Option String := none
  body : Option String := none
deriving DecidableEq, Repr

namespace Response

open Json

def json (status : Nat) (d : Document) : Response := { status, body := some d.toText }

def ofError (e : ServiceError) : Response :=
  json e.status
    (.object
      [(some "error", .object [(some "code", .text e.code), (some "message", .text e.message)])])

/-- The response with its body, if it has one, left empty. -/
def withoutText (r : Response) : Response := { r with body := r.body.map fun _ => "" }

def one (status : Nat) (row : Json) : Response :=
  json status (.object [(some "data", row.toDocument)])

def many (status : Nat) (rows : List Json) : Response :=
  json status
    (.object
      [(some "data", .array (rows.map toDocument)),
        (some "meta", .object [(some "count", .number (.int rows.length))])])

end Response

end TableGateway
