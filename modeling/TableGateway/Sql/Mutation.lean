import TableGateway.Sql.Selection

/-!
# Statements that write

Insertion, update and deletion of one row. Generated columns are never assigned, and an update does
not assign the primary key either. Where an engine does not hand the row back, a second statement
selects it.
-/

namespace TableGateway

structure Mutation where
  statement : Statement
  selectBack : Option Statement := none

/-- A column with the value that it gets. -/
structure Assignment where
  column : Column
  value : BoundValue

namespace Assignment

/-- The assignment of a member of a body, unless the column is not assigned. The primary key is
assigned only `withKey`. -/
def ofMember (e : Entity) (withKey : Bool) (name : String) (j : Json) :
    Except QueryError (Option Assignment) :=
  match e.column? name with
  | none => .error (.unknownColumn e.name name)
  | some c =>
    if c.isGenerated || (!withKey && c.primaryKey) then .ok none
    else (BoundValue.ofJson c j).map fun v => some ⟨c, v⟩

def ofMembers (e : Entity) (withKey : Bool) :
    List (String × Json) → Except QueryError (List Assignment)
  | [] => .ok []
  | (name, j) :: rest => do
    let first ← ofMember e withKey name j
    let others ← ofMembers e withKey rest
    .ok (first.toList ++ others)

def columnName (a : Assignment) : Draft := [.name a.column.name]

def placeholder (a : Assignment) : Draft := [.value a.column.name a.value (some a.column.type)]

def equation (a : Assignment) : Draft := Draft.equals a.columnName a.placeholder

end Assignment

namespace Mutation

open Draft

/-- The row whose key is what `key` stands for. -/
def rowByKey (d : Dialect) (e : Entity) (column : Column) (key : Draft) : Statement :=
  { dialect := d
    draft := spaced
      [[.keyword .SELECT], d.columns e.columns, [.keyword .FROM], e.table d, [.keyword .WHERE],
        equals [.name column.name] key] }

def keyPlaceholder (column : Column) (v : BoundValue) : Draft :=
  [.value column.name v (some column.type)]

/-- The key of an inserted row: the one that was supplied, or else the one that was made up. -/
def insertedKey (d : Dialect) (column : Column) (assignments : List Assignment) : Draft :=
  match (assignments.filter fun a => a.column.primaryKey).getLast? with
  | some a => keyPlaceholder column a.value
  | none => d.lastKey?.getD [.keyword .NULL]

/-- The parts of an insertion before and after the place of an output clause. -/
def insertedValues (d : Dialect) (assignments : List Assignment) : List Draft × List Draft :=
  if assignments.isEmpty then
    if d = .mysql then ([enclosed []], [spaced [[.keyword .VALUES], enclosed []]])
    else ([], [words [.DEFAULT, .VALUES]])
  else
    ([enclosed (listed (assignments.map Assignment.columnName))],
      [[.keyword .VALUES], enclosed (listed (assignments.map Assignment.placeholder))])

def insertion (d : Dialect) (e : Entity) (assignments : List Assignment) : Mutation :=
  let front := [words [.INSERT, .INTO], e.table d]
  let (before, after) := insertedValues d assignments
  match d.rowReturn e.columns with
  | .suffix clause => { statement := ⟨d, spaced (front ++ before ++ after ++ [clause])⟩ }
  | .output clause => { statement := ⟨d, spaced (front ++ before ++ [clause] ++ after)⟩ }
  | .selectBack =>
    { statement := ⟨d, spaced (front ++ before ++ after)⟩
      selectBack := e.primaryKey?.map fun key =>
        rowByKey d e key (insertedKey d key assignments) }

def insert (d : Dialect) (e : Entity) (body : List (String × Json)) :
    Except StatementError Mutation :=
  match Assignment.ofMembers e true body with
  | .ok assignments => .ok (insertion d e assignments)
  | .error fault => .error (.query fault)

def rowUpdate (d : Dialect) (e : Entity) (column : Column) (key : BoundValue)
    (assignments : List Assignment) : Mutation :=
  let front :=
    [[.keyword .UPDATE], e.table d, [.keyword .SET],
      listed (assignments.map Assignment.equation)]
  let predicate :=
    [[.keyword .WHERE], equals [.name column.name] (keyPlaceholder column key)]
  match d.rowReturn e.columns with
  | .suffix clause => { statement := ⟨d, spaced (front ++ predicate ++ [clause])⟩ }
  | .output clause => { statement := ⟨d, spaced (front ++ [clause] ++ predicate)⟩ }
  | .selectBack =>
    { statement := ⟨d, spaced (front ++ predicate)⟩
      selectBack := some (rowByKey d e column (keyPlaceholder column key)) }

/-- Assigns members to the row with this id. When none of them is assigned, the statement only
selects the row. -/
def update (d : Dialect) (e : Entity) (id : String) (members : List (String × Json)) :
    Except StatementError Mutation := do
  let (column, key) ← e.keyValue id
  let assignments ← (Assignment.ofMembers e false members).mapError StatementError.query
  if assignments.isEmpty then
    .ok { statement := rowByKey d e column (keyPlaceholder column key) }
  else .ok (rowUpdate d e column key assignments)

def delete (d : Dialect) (e : Entity) (id : String) : Except StatementError Statement := do
  let (column, key) ← e.keyValue id
  .ok
    { dialect := d
      draft := spaced
        [words [.DELETE, .FROM], e.table d, [.keyword .WHERE],
          equals [.name column.name] (keyPlaceholder column key)] }

end Mutation

end TableGateway
