import TableGateway.BoundValue
import TableGateway.Text.Basic

/-!
# Parameters of a statement

The values of a statement in the order in which they were added, each under a name of its own. A
name is made from a hint; when it is taken, ignoring ASCII case, a number from two up is put after
it.
-/

namespace TableGateway

structure Parameters where
  entries : List (String × BoundValue) := []

namespace Parameters

def size (ps : Parameters) : Nat := ps.entries.length

def names (ps : Parameters) : List String := ps.entries.map Prod.fst

def values (ps : Parameters) : List BoundValue := ps.entries.map Prod.snd

/-- The value under exactly this name. -/
def get? (ps : Parameters) (name : String) : Option BoundValue :=
  (ps.entries.find? fun entry => entry.1 = name).map Prod.snd

def isNameChar (c : Char) : Bool := c.isAlphanum || c = '_'

/-- The hint as a name: other characters become underscores, and a `p` goes before a digit. -/
def baseName (hint : String) : List Char :=
  let cs := hint.toList.map fun c => if isNameChar c then c else '_'
  match cs with
  | [] => ['p']
  | c :: _ => if c.isDigit then 'p' :: cs else cs

/-- The base itself, then the base with the numbers from two up. -/
def candidate (base : List Char) (n : Nat) : String :=
  String.ofList (if n = 0 then base else base ++ '_' :: Text.decimal (n + 1))

/-- The number of the first candidate from `n` up whose lower case is not among `taken`. It is
looked for among as many candidates as there are names, and the one after them is taken otherwise:
of more candidates than names one is free. -/
def firstFree (base : List Char) (taken : List String) : Nat → Nat → Nat
  | 0, n => n
  | tries + 1, n =>
    if taken.contains (Text.lowered (candidate base n)) then firstFree base taken tries (n + 1)
    else n

def freshName (ps : Parameters) (hint : String) : String :=
  let base := baseName hint
  candidate base (firstFree base (ps.names.map Text.lowered) ps.size 0)

def push (ps : Parameters) (hint : String) (v : BoundValue) : Parameters :=
  ⟨ps.entries ++ [(ps.freshName hint, v)]⟩

@[simp] theorem values_push (ps : Parameters) (hint : String) (v : BoundValue) :
    (ps.push hint v).values = ps.values ++ [v] := by
  simp [push, values]

@[simp] theorem names_push (ps : Parameters) (hint : String) (v : BoundValue) :
    (ps.push hint v).names = ps.names ++ [ps.freshName hint] := by
  simp [push, names]

@[simp] theorem size_push (ps : Parameters) (hint : String) (v : BoundValue) :
    (ps.push hint v).size = ps.size + 1 := by
  simp [push, size]

end Parameters

end TableGateway
