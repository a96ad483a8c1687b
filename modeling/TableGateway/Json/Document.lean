import TableGateway.Json.Token
import TableGateway.Json.Value

/-!
# JSON documents

A document is what the grammar finds in a text: members in the order written, keys as often as they
occur. Strings and numbers that denote nothing stay in it as `void`, because a reader that skips a
member does not care what is inside. `value?` turns a document into a value; it fails on `void`, and
`readValue?` also on nesting that is too deep.
-/

namespace TableGateway.Json

inductive Document
  | null
  | bool (b : Bool)
  | number (n : Number)
  | text (s : String)
  | void
  | array (items : List Document)
  | object (members : List (Option String × Document))
deriving Inhabited

namespace Document

abbrev Shorter (ts : List Token) := { rest : List Token // rest.length < ts.length }

namespace Shorter

theorem length_one {t : Token} {rest : List Token} : rest.length < (t :: rest).length :=
  Nat.lt_succ_self _

theorem length_two {t u : Token} {rest : List Token} : rest.length < (t :: u :: rest).length :=
  Nat.lt_trans length_one length_one

theorem length_cons {t : Token} {rest ts : List Token} (h : rest.length < ts.length) :
    rest.length < (t :: ts).length :=
  Nat.lt_trans h length_one

theorem length_cons_cons {t u : Token} {rest ts : List Token} (h : rest.length < ts.length) :
    rest.length < (t :: u :: ts).length :=
  length_cons (length_cons h)

theorem length_tail {t : Token} {rest ts : List Token} (h : (t :: rest).length < ts.length) :
    rest.length < ts.length :=
  Nat.lt_trans length_one h

end Shorter

mutual

/-- The document at the front of the tokens, and the tokens after it. -/
def ofTokens? (ts : List Token) : Option (Document × Shorter ts) :=
  match ts with
  | .null :: rest => some (.null, ⟨rest, Shorter.length_one⟩)
  | .bool b :: rest => some (.bool b, ⟨rest, Shorter.length_one⟩)
  | .number (some n) :: rest => some (.number n, ⟨rest, Shorter.length_one⟩)
  | .number none :: rest => some (.void, ⟨rest, Shorter.length_one⟩)
  | .text (some s) :: rest => some (.text s, ⟨rest, Shorter.length_one⟩)
  | .text none :: rest => some (.void, ⟨rest, Shorter.length_one⟩)
  | .openArray :: .closeArray :: rest => some (.array [], ⟨rest, Shorter.length_two⟩)
  | .openArray :: inner =>
    match itemsOfTokens? inner with
    | some (items, ⟨rest, h⟩) => some (.array items, ⟨rest, Shorter.length_cons h⟩)
    | none => none
  | .openObject :: .closeObject :: rest => some (.object [], ⟨rest, Shorter.length_two⟩)
  | .openObject :: inner =>
    match membersOfTokens? inner with
    | some (members, ⟨rest, h⟩) => some (.object members, ⟨rest, Shorter.length_cons h⟩)
    | none => none
  | _ => none
termination_by (ts.length, 0)

/-- One item or more with commas between them, up to the closing bracket. -/
def itemsOfTokens? (ts : List Token) : Option (List Document × Shorter ts) :=
  match ofTokens? ts with
  | some (item, ⟨.closeArray :: rest, h⟩) => some ([item], ⟨rest, Shorter.length_tail h⟩)
  | some (item, ⟨.comma :: next, h⟩) =>
    match itemsOfTokens? next with
    | some (items, ⟨rest, h'⟩) =>
      some (item :: items, ⟨rest, Nat.lt_trans h' (Shorter.length_tail h)⟩)
    | none => none
  | _ => none
termination_by (ts.length, 1)
decreasing_by
  · simp [Prod.lex_def]
  · simp at h; simp [Prod.lex_def]; omega

/-- One member or more with commas between them, up to the closing brace. -/
def membersOfTokens? (ts : List Token) :
    Option (List (Option String × Document) × Shorter ts) :=
  match ts with
  | .text key :: .colon :: valueTokens =>
    match ofTokens? valueTokens with
    | some (value, ⟨.closeObject :: rest, h⟩) =>
      some ([(key, value)], ⟨rest, Shorter.length_cons_cons (Shorter.length_tail h)⟩)
    | some (value, ⟨.comma :: next, h⟩) =>
      match membersOfTokens? next with
      | some (members, ⟨rest, h'⟩) =>
        some ((key, value) :: members,
          ⟨rest, Nat.lt_trans h' (Shorter.length_cons_cons (Shorter.length_tail h))⟩)
      | none => none
    | _ => none
  | _ => none
termination_by (ts.length, 0)
decreasing_by
  · simp only [Prod.lex_def, List.length_cons]; omega
  · simp at h; simp [Prod.lex_def]; omega

end

def read? (cs : List Char) : Option Document :=
  match ofTokens? (tokens cs) with
  | some (d, ⟨[], _⟩) => some d
  | _ => none

/-- The document at the front of a text; whatever follows it is not looked at. -/
def readFirst? (cs : List Char) : Option Document := (ofTokens? (tokens cs)).map Prod.fst

mutual

/-- How deep arrays and objects are nested. -/
def depth : Document → Nat
  | .array items => depthOfItems items + 1
  | .object members => depthOfMembers members + 1
  | _ => 0

def depthOfItems : List Document → Nat
  | [] => 0
  | d :: ds => max (depth d) (depthOfItems ds)

def depthOfMembers : List (Option String × Document) → Nat
  | [] => 0
  | (_, d) :: ds => max (depth d) (depthOfMembers ds)

end

mutual

/-- The value that a document denotes; of two members with one key the later counts. -/
def value? : Document → Option Json
  | .null => some .null
  | .bool b => some (.bool b)
  | .number n => some (.number n)
  | .text s => some (.text s)
  | .void => none
  | .array items => (valuesOfItems? items).map .array
  | .object members => (valuesOfMembers? members).map .ofMembers

def valuesOfItems? : List Document → Option (List Json)
  | [] => some []
  | d :: ds =>
    match value? d, valuesOfItems? ds with
    | some x, some xs => some (x :: xs)
    | _, _ => none

def valuesOfMembers? : List (Option String × Document) → Option (List (String × Json))
  | [] => some []
  | (key, d) :: ds =>
    match key, value? d, valuesOfMembers? ds with
    | some key, some x, some xs => some ((key, x) :: xs)
    | _, _, _ => none

end

mutual

def write : Document → List Char
  | .null => Json.null.write
  | .bool b => (Json.bool b).write
  | .number n => n.write
  | .text s => quote s
  | .void => []
  | .array items => brackets (writeItems items)
  | .object members => braces (writeMembers members)

def writeItems : List Document → List (List Char)
  | [] => []
  | d :: ds => write d :: writeItems ds

def writeMembers : List (Option String × Document) → List (String × List Char)
  | [] => []
  | (key, d) :: ds => (key.getD "", write d) :: writeMembers ds

end

def toText (d : Document) : String := String.ofList d.write

/-- The deepest nesting that is read. -/
def maxDepth : Nat := 127

/-- The value of a document that stands inside `outer` arrays and objects. -/
def valueWithin? (outer : Nat) (d : Document) : Option Json :=
  if outer + d.depth ≤ maxDepth then d.value? else none

end Document

mutual

def toDocument : Json → Document
  | .null => .null
  | .bool b => .bool b
  | .number n => .number n
  | .text s => .text s
  | .array items => .array (itemsToDocuments items)
  | .object members => .object (membersToDocuments members)

def itemsToDocuments : List Json → List Document
  | [] => []
  | x :: xs => toDocument x :: itemsToDocuments xs

def membersToDocuments : List (String × Json) → List (Option String × Document)
  | [] => []
  | (k, x) :: rest => (some k, toDocument x) :: membersToDocuments rest

end

def readValue? (s : String) : Option Json :=
  (Document.read? s.toList).bind (Document.valueWithin? 0)

def readFirstValue? (s : String) : Option Json :=
  (Document.readFirst? s.toList).bind (Document.valueWithin? 0)

end TableGateway.Json
