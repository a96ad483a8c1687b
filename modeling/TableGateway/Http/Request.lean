import TableGateway.Access.Gate
import TableGateway.Http.MediaType
import TableGateway.Http.Uri
import TableGateway.Number.Numeral
import TableGateway.Text.Basic

/-!
# Requests

A request as it comes in. The name of a header may be written in any case, and of headers with one
name the first counts. A header whose value is not visible ASCII is passed over.
-/

namespace TableGateway

structure Request where
  method : String
  target : String
  headers : List (String × String) := []
  body : String := ""

namespace Request

def isVisible (c : Char) : Bool := c = '\t' || (' ' ≤ c && c ≤ '~')

def header? (r : Request) (name : String) : Option String :=
  ((r.headers.find? fun h => Text.sameName h.1 name).map Prod.snd).filter fun value =>
    value.toList.all isVisible

/-- Who makes the request: a user id, and roles with commas between them. Blanks around a name are
dropped, and what is blank is no name. -/
def principal (r : Request) : Principal :=
  let name? (s : String) : Option String :=
    if Text.isBlankText s then none else some (Text.trimmed s)
  { user := (r.header? "x-user-id").bind name?
    roles := (Text.split (· = ',') ((r.header? "x-user-roles").getD "")).filterMap name? }

/-- The length of the body in bytes, as a header declares it. -/
def declaredLength? (r : Request) : Option Nat :=
  (r.header? "content-length").bind fun value => Numeral.readUInt64? value.toList

/-- A body that is read as JSON is never longer than this. -/
def maxJsonBytes : Nat := 2 * 1024 * 1024

/-- The greatest length of a body that is read, where the server reads at most `most` bytes. -/
def bodyLimit (r : Request) (most : Nat) : Nat :=
  min maxJsonBytes (min most (r.declaredLength?.getD most))

def saysJson (r : Request) : Bool := (r.header? "content-type").any MediaType.isJson

end Request

end TableGateway
