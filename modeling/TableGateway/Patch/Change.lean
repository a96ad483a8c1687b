import TableGateway.Patch.Document

/-!
# Changes as patches

The patch that is recorded for a change that was not asked for as a patch, and the text by which a
header lists the operations of a patch. The id stands in a path as it is.
-/

namespace TableGateway.PatchOperation

def ofCreated (id : String) (row : Json) : List PatchOperation :=
  [{ kind := .add, path := s!"/{id}", value := some row }]

def ofReplaced (id : String) (members : List (String × Json)) : List PatchOperation :=
  members.map fun (key, v) => { kind := .replace, path := s!"/{id}/{key}", value := some v }

def ofDeleted (id : String) : List PatchOperation := [{ kind := .remove, path := s!"/{id}" }]

/-- A UTF-16 unit as a JSON escape. -/
def unitEscape (n : Nat) : List Char :=
  let digits := Nat.toDigits 16 n
  '\\' :: 'u' :: List.replicate (4 - digits.length) '0' ++ digits

/-- A character beyond ASCII is written as its UTF-16 units. -/
def asciiChar (c : Char) : List Char :=
  let n := c.toNat
  if n < 0x80 then [c]
  else if n < 0x10000 then unitEscape n
  else
    let pair := n - 0x10000
    unitEscape (0xD800 + pair / 0x400) ++ unitEscape (0xDC00 + pair % 0x400)

/-- The operations as JSON in ASCII. A header cannot hold the control character that JSON leaves as
it is. -/
def headerText? (os : List PatchOperation) : Option String :=
  let cs := (listToDocument os).write.flatMap asciiChar
  if cs.contains '\x7f' then none else some (String.ofList cs)

end TableGateway.PatchOperation
