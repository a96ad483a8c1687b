import TableGateway.Query.Filter.Shape

/-!
# Reading filters

A filter is a chain of terms with combinators between them. A term is a condition or a chain in
parentheses. A chain is assembled into a tree once all of it is read: `and` binds tighter than
`or`, and both associate to the left. Every reader returns the lexemes that it leaves, with the
proof that it took at least one.
-/

namespace TableGateway.Filter

abbrev Shorter (ls : List Lexeme) := { rest : List Lexeme // rest.length < ls.length }

abbrev NoLonger (ls : List Lexeme) := { rest : List Lexeme // rest.length ≤ ls.length }

/-- The value of a literal. Operators on text take it as it stands, the others as a value of the
column. -/
def literal (c : Column) (op : Comparison) (s : List Char) : Except QueryError BoundValue :=
  if op.isPattern then .ok (.text (String.ofList s)) else BoundValue.ofText c (String.ofList s)

def bareLiteral (c : Column) (op : Comparison) (w : List Char) : Except QueryError BoundValue :=
  if Text.sameName (String.ofList w) "null" then
    if op.allowsNull then .ok .null
    else .error (.invalidLiteral c.name (String.ofList w) .nonNull)
  else literal c op w

def singleValue (c : Column) (op : Comparison) (ls : List Lexeme) :
    Except QueryError (BoundValue × Shorter ls) :=
  match ls with
  | .quoted s :: rest => (literal c op s).map (·, ⟨rest, by simp⟩)
  | .word w :: rest =>
    if (Combinator.ofWord? w).isSome then .error (.malformedFilter (.missingValue c.name))
    else (bareLiteral c op w).map (·, ⟨rest, by simp⟩)
  | _ => .error (.malformedFilter (.missingValue c.name))

def itemText? : Lexeme → Option (List Char)
  | .quoted s => some s
  | .word w => some w
  | _ => none

def itemFault (c : Column) (isFirst : Bool) (found : Lexeme) : FilterFault :=
  if isFirst ∧ found = .closing then .emptyList c.name else .unexpectedInList found c.name

def items (c : Column) (isFirst : Bool) (ls : List Lexeme) :
    Except QueryError (List BoundValue × Shorter ls) :=
  match ls with
  | [] => .error (.unbalanced .endOfFilter)
  | l :: rest =>
    match itemText? l with
    | none => .error (.malformedFilter (itemFault c isFirst l))
    | some s => do
      let v ← BoundValue.ofText c (String.ofList s)
      match h : rest with
      | [] => .error (.unbalanced .endOfFilter)
      | .closing :: after => .ok ([v], ⟨after, by simp only [h, List.length_cons]; omega⟩)
      | .comma :: after => do
        let (vs, ⟨left, _⟩) ← items c false after
        .ok (v :: vs, ⟨left, by simp only [h, List.length_cons]; omega⟩)
      | l :: _ => .error (.malformedFilter (.unseparatedList l))

def listValue (c : Column) (ls : List Lexeme) :
    Except QueryError (List BoundValue × Shorter ls) :=
  match ls with
  | .opening :: rest => do
    let (vs, ⟨left, _⟩) ← items c true rest
    .ok (vs, ⟨left, by simp; omega⟩)
  | _ => .error (.malformedFilter (.missingList c.name))

def operand (c : Column) (op : Comparison) (ls : List Lexeme) :
    Except QueryError (Operand × Shorter ls) :=
  if op = .within then (listValue c ls).map fun (vs, rest) => (.list vs, rest)
  else (singleValue c op ls).map fun (v, rest) => (.single v, rest)

def operator (l : Lexeme) : Except QueryError Comparison :=
  match l with
  | .word w => ((Comparison.ofWord? w).map Except.ok).getD (.error (.invalidOperator l))
  | _ => .error (.invalidOperator l)

def comparison (e : Entity) (c : Column) (ls : List Lexeme) :
    Except QueryError (Condition × Shorter ls) :=
  match ls with
  | [] => .error (.malformedFilter (.missingOperator c.name))
  | l :: rest => do
    let op ← operator l
    let (v, ⟨left, _⟩) ← operand c op rest
    .ok (⟨e.aliasName, c.name, c.type, op, v⟩, ⟨left, by simp; omega⟩)

/-- A digit, or a sign and a digit, comes first. -/
def startsAsNumber (w : List Char) : Bool :=
  match w with
  | '-' :: d :: _ | '+' :: d :: _ => d.isDigit
  | d :: _ => d.isDigit
  | [] => false

def namesColumn (e : Entity) (l : Lexeme) : Bool :=
  match l with
  | .word w => (e.column? (String.ofList w)).isSome
  | _ => false

/-- Why a condition does not start with this word, which names no column. The word may be a value,
with the column where the value should be. -/
def leadingFault (e : Entity) (w : List Char) (rest : List Lexeme) : QueryError :=
  if startsAsNumber w || (rest[1]?.map (namesColumn e)).getD false then
    .reversedCondition ((.word w :: rest).take 3)
  else .unknownColumn e.name (String.ofList w)

def conditionOn (e : Entity) (w : List Char) (rest : List Lexeme) :
    Except QueryError (Condition × Shorter rest) :=
  match e.column? (String.ofList w) with
  | some c => comparison e c rest
  | none => .error (leadingFault e w rest)

def orElse : Option Filter → Filter → Filter
  | none, right => right
  | some left, right => .combined left .or right

/-- The tree of a chain, of which `left` holds the finished alternatives and `current` the terms of
the last one. -/
def assemble (left : Option Filter) (current : Filter) : List (Combinator × Filter) → Filter
  | [] => orElse left current
  | (.and, t) :: rest => assemble left (.combined current .and t) rest
  | (.or, t) :: rest => assemble (some (orElse left current)) t rest

/-- Whether a combinator before these lexemes has nothing to combine with. -/
def isDangling : List Lexeme → Bool
  | [] => true
  | l :: _ => l = .closing || l.isCombinator

mutual

/-- A chain, as far as combinators follow. -/
def chain (e : Entity) (ls : List Lexeme) : Except QueryError (Filter × Shorter ls) := do
  let (t, ⟨rest, _⟩) ← term e ls
  let (ts, ⟨left, _⟩) ← moreTerms e rest
  .ok (assemble none t ts, ⟨left, by omega⟩)
termination_by (ls.length, 1)

/-- Combinators, each with the term after it. -/
def moreTerms (e : Entity) (ls : List Lexeme) :
    Except QueryError (List (Combinator × Filter) × NoLonger ls) :=
  match ls with
  | .word w :: next =>
    match Combinator.ofWord? w with
    | none => .ok ([], ⟨.word w :: next, by simp⟩)
    | some op =>
      if isDangling next then .error (.danglingOperator w)
      else do
        let (t, ⟨rest, _⟩) ← term e next
        let (ts, ⟨left, _⟩) ← moreTerms e rest
        .ok ((op, t) :: ts, ⟨left, by simp; omega⟩)
  | ls => .ok ([], ⟨ls, by simp⟩)
termination_by (ls.length, 0)

def term (e : Entity) (ls : List Lexeme) : Except QueryError (Filter × Shorter ls) :=
  match ls with
  | [] => .error (.malformedFilter .missingCondition)
  | .opening :: .closing :: _ => .error (.malformedFilter .emptyParentheses)
  | .opening :: next =>
    match chain e next with
    | .error fault => .error fault
    | .ok (_, ⟨[], _⟩) => .error (.unbalanced .endOfFilter)
    | .ok (inner, ⟨.closing :: left, h⟩) =>
      .ok (.group inner, ⟨left, by simp at h ⊢; omega⟩)
    | .ok (_, ⟨l :: _, _⟩) => .error (.malformedFilter (.unclosedGroup l))
  | .word w :: next =>
    if (Combinator.ofWord? w).isSome then .error (.danglingOperator w)
    else do
      let (c, ⟨left, _⟩) ← conditionOn e w next
      .ok (.condition c, ⟨left, by simp; omega⟩)
  | .quoted s :: next => .error (.reversedCondition ((.quoted s :: next).take 3))
  | l :: _ => .error (.malformedFilter (.unexpected l))
termination_by (ls.length, 0)

end

def ofLexemes (e : Entity) (ls : List Lexeme) : Except QueryError Filter := do
  let (f, ⟨rest, _⟩) ← chain e ls
  match rest with
  | [] => .ok f
  | l :: _ => .error (.malformedFilter (.missingCombinator l))

def compile (e : Entity) (raw : String) : Except QueryError Filter :=
  if Text.isBlankText raw then .error .emptyFilter
  else
    match Lexeme.lex raw.toList with
    | .error content => .error (.malformedFilter (.unterminated content))
    | .ok ls => do
      Lexeme.checkShape ls
      ofLexemes e ls

end TableGateway.Filter
