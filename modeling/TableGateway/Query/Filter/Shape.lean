import TableGateway.Query.Filter.Basic

/-!
# The shape of a filter

Before a filter is parsed its lexemes are read once from left to right. Parentheses must match and
must not nest too deep, and the words that combine conditions must stay below a limit. Parentheses
of lists and combinators inside lists count as well.
-/

namespace TableGateway.Lexeme

def isCombinator : Lexeme → Bool
  | .word w => (Combinator.ofWord? w).isSome
  | _ => false

/-- What has been read of a filter: its lexemes, the last one first, the parentheses that are open,
and the combinators. -/
structure Shape where
  before : List Lexeme := []
  depth : Nat := 0
  combinators : Nat := 0

namespace Shape

def lastShown (s : Shape) : List Lexeme := (s.before.take 3).reverse

def step (s : Shape) (l : Lexeme) : Except QueryError Shape :=
  let before := l :: s.before
  match l with
  | .opening =>
    if maxFilterDepth < s.depth + 1 then .error (.malformedFilter .tooDeep)
    else .ok { s with before, depth := s.depth + 1 }
  | .closing =>
    match s.depth with
    | 0 => .error (.unbalanced (.unexpectedClosing s.lastShown))
    | depth + 1 => .ok { s with before, depth }
  | _ =>
    if !l.isCombinator then .ok { s with before }
    else if maxFilterConditions ≤ s.combinators + 1 then
      .error (.malformedFilter .tooManyConditions)
    else .ok { s with before, combinators := s.combinators + 1 }

end Shape

def checkShape (ls : List Lexeme) : Except QueryError Unit := do
  let s ← ls.foldlM Shape.step {}
  if s.depth = 0 then .ok () else .error (.unbalanced (.open s.depth))

end TableGateway.Lexeme
