import TableGateway.Json.Number

/-!
# JSON values

The members of an object are kept in the order of their keys, each key once, so that equal objects
are written alike. Writing is compact: no blank is put between tokens.
-/

namespace TableGateway

inductive Json
  | null
  | bool (b : Bool)
  | number (n : Json.Number)
  | text (s : String)
  | array (items : List Json)
  | object (members : List (String × Json))
deriving Inhabited

namespace Json

/-- Stores a member at its place in the order of the keys, instead of one with the same key. -/
def insertMember {α : Type} (key : String) (value : α) : List (String × α) → List (String × α)
  | [] => [(key, value)]
  | (k, v) :: rest =>
    if key < k then (key, value) :: (k, v) :: rest
    else if key = k then (key, value) :: rest
    else (k, v) :: insertMember key value rest

/-- Members in the order of their keys; of two with one key the later is kept. -/
def sortMembers {α : Type} (members : List (String × α)) : List (String × α) :=
  members.foldl (fun sorted m => insertMember m.1 m.2 sorted) []

def ofMembers (members : List (String × Json)) : Json := .object (sortMembers members)

/-- A double as a number; infinities and what is not a number become null. -/
def ofBinary64 (x : Binary64) : Json :=
  if x.isFinite then .number (.double x) else .null

def ofInt (n : Int) : Json := .number (.int n)

def isArray : Json → Bool
  | .array _ => true
  | _ => false

def member? (key : String) : Json → Option Json
  | .object members => (members.find? fun m => m.1 = key).map Prod.snd
  | _ => none

/-- Control characters other than the five with a letter of their own are written in hexadecimal. -/
def escapeChar (c : Char) : List Char :=
  if c = '"' then ['\\', '"']
  else if c = '\\' then ['\\', '\\']
  else if c = '\x08' then ['\\', 'b']
  else if c = '\x0c' then ['\\', 'f']
  else if c = '\n' then ['\\', 'n']
  else if c = '\r' then ['\\', 'r']
  else if c = '\t' then ['\\', 't']
  else if c < ' ' then
    ['\\', 'u', '0', '0', Nat.digitChar (c.toNat / 16), Nat.digitChar (c.toNat % 16)]
  else [c]

def quote (s : String) : List Char := '"' :: s.toList.flatMap escapeChar ++ ['"']

def brackets : List (List Char) → List Char
  | [] => ['[', ']']
  | x :: xs => '[' :: x ++ xs.flatMap (',' :: ·) ++ [']']

def writeMember (m : String × List Char) : List Char := quote m.1 ++ ':' :: m.2

def braces : List (String × List Char) → List Char
  | [] => ['\x7b', '\x7d']
  | m :: ms => '\x7b' :: writeMember m ++ ms.flatMap (fun m => ',' :: writeMember m) ++ ['\x7d']

mutual

def write : Json → List Char
  | .null => "null".toList
  | .bool true => "true".toList
  | .bool false => "false".toList
  | .number n => n.write
  | .text s => quote s
  | .array items => brackets (writeItems items)
  | .object members => braces (writeMembers members)

def writeItems : List Json → List (List Char)
  | [] => []
  | x :: xs => write x :: writeItems xs

def writeMembers : List (String × Json) → List (String × List Char)
  | [] => []
  | (k, x) :: rest => (k, write x) :: writeMembers rest

end

def toText (j : Json) : String := String.ofList j.write

end Json

end TableGateway
