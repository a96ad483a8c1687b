import TableGateway.Patch.Operation
import TableGateway.Text.Basic

/-!
# Patches of single resources

A patch document is split by the ids that its paths begin with, in the order in which they first
occur. The operations on one resource then come down to one value for each column that they name.
-/

namespace TableGateway

structure SubPatch where
  id : String
  operations : List PatchOperation

namespace SubPatch

/-- Appends an operation to the sub-patch with its id, or begins one at the end. -/
def insert (id : String) (o : PatchOperation) : List SubPatch → List SubPatch
  | [] => [⟨id, [o]⟩]
  | s :: rest =>
    if s.id = id then { s with operations := s.operations ++ [o] } :: rest
    else s :: insert id o rest

def splitInto (subs : List SubPatch) : List PatchOperation → Except PatchFault (List SubPatch)
  | [] => .ok subs
  | o :: rest =>
    if o.id = "" then .error (.noResource o.path) else splitInto (insert o.id o subs) rest

def split (os : List PatchOperation) : Except PatchFault (List SubPatch) := splitInto [] os

/-- Gives a column its value. A column that was named before, in whatever case, keeps its place. -/
def assign (column : String) (value : Json) : List (String × Json) → List (String × Json)
  | [] => [(column, value)]
  | (c, v) :: rest =>
    if Text.sameName c column then (c, value) :: rest else (c, v) :: assign column value rest

def columnOf (o : PatchOperation) : Except PatchFault String :=
  match o.segments with
  | [_, column] => if column = "" then .error (.notColumnPath o.path) else .ok column
  | _ => .error (.notColumnPath o.path)

/-- The value that an operation stores; to remove is to store null. -/
def storedValue (o : PatchOperation) : Except PatchFault Json :=
  match o.kind with
  | .add | .replace =>
    match o.value with
    | some v => .ok v
    | none => .error (.missingValue o.path)
  | .remove => .ok .null
  | kind => .error (.unsupported kind)

def setsInto (sets : List (String × Json)) :
    List PatchOperation → Except PatchFault (List (String × Json))
  | [] => .ok sets
  | o :: rest => do
    let column ← columnOf o
    let value ← storedValue o
    setsInto (assign column value sets) rest

/-- The columns that a sub-patch names, each with the value that it leaves there. -/
def columnSets (s : SubPatch) : Except PatchFault (List (String × Json)) :=
  setsInto [] s.operations

def toText (s : SubPatch) : String := (PatchOperation.listToDocument s.operations).toText

open Json in
def toDocument (s : SubPatch) : Document :=
  .object
    [(some "id", .text s.id), (some "operations", PatchOperation.listToDocument s.operations)]

end SubPatch

end TableGateway
