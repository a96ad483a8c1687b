import TableGateway.Json.Document
import TableGateway.Patch.Fault
import TableGateway.Text.Basic

/-!
# Patch operations

An operation addresses a column of a resource by a path of two segments, the id and the column. In
a segment `~1` stands for a slash and `~0` for a tilde.
-/

namespace TableGateway

structure PatchOperation where
  kind : PatchKind
  path : String
  value : Option Json := none
  source : Option String := none

namespace PatchOperation

def unescape : List Char → List Char
  | [] => []
  | '~' :: '1' :: rest => '/' :: unescape rest
  | '~' :: '0' :: rest => '~' :: unescape rest
  | c :: rest => c :: unescape rest

def escapeChar (c : Char) : List Char :=
  if c = '~' then ['~', '0'] else if c = '/' then ['~', '1'] else [c]

/-- A text as a segment of a path. -/
def escape (s : String) : List Char := s.toList.flatMap escapeChar

/-- The decoded segments of a path. The slash at its front may be missing. -/
def segmentsOf (path : List Char) : List String :=
  let path :=
    match path with
    | '/' :: rest => rest
    | path => path
  (Text.splitChars (· = '/') path).map fun segment => String.ofList (unescape segment)

def segments (o : PatchOperation) : List String := segmentsOf o.path.toList

def id (o : PatchOperation) : String := o.segments.headD ""

/-- The same operation on a path that the id precedes. -/
def inResource (id : String) (o : PatchOperation) : PatchOperation :=
  { o with path := String.ofList ('/' :: escape id ++ o.path.toList) }

open Json in
def toDocument (o : PatchOperation) : Document :=
  .object
    ([(some "op", .text o.kind.name), (some "path", .text o.path)] ++
      o.value.toList.map (fun v => (some "value", v.toDocument)) ++
      o.source.toList.map fun s => (some "from", .text s))

open Json in
def listToDocument (os : List PatchOperation) : Document := .array (os.map toDocument)

end PatchOperation

end TableGateway
