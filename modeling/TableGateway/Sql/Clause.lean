import TableGateway.Query.Plan
import TableGateway.Sql.Draft

/-!
# Clauses

The drafts of a filter, a projection, a sort list, joins and a page, which statements are put
together from. No parentheses are added to a filter: a group brings its own.
-/

namespace TableGateway

namespace Dialect

open Draft

def table (d : Dialect) (schema table : String) : Draft :=
  if schema = "" ∨ d = .sqlite then [.name table] else columnOf schema table

/-- How an engine compares a text with a pattern without regard to case: what stands before the
column, between it and the placeholder, and after that. -/
structure MatchForm where
  before : Draft
  between : Draft
  after : Draft

def matchForm (d : Dialect) (type : DataType) : MatchForm :=
  match d with
  | .postgres =>
    { before := []
      between :=
        (if type = .text then [] else [.mark .cast, .keyword .textType]) ++
          [.mark .space, .keyword .ILIKE, .mark .space]
      after := [] }
  | .mysql | .sqlServer =>
    { before := [.keyword .LOWER, .mark .opening]
      between :=
        [.mark .closing, .mark .space, .keyword .LIKE, .mark .space, .keyword .LOWER,
          .mark .opening]
      after := [.mark .closing] }
  | .sqlite =>
    { before := []
      between := [.mark .space, .keyword .LIKE, .mark .space]
      after := [.mark .space, .keyword .ESCAPE, .mark .space, .mark .backslash] }

def searchedText : BoundValue → String
  | .text s => s
  | v => v.toJson.toText

/-- The pattern of a condition: the text itself at the front, or anywhere. -/
def pattern (d : Dialect) (op : Comparison) (v : BoundValue) : BoundValue :=
  let escaped := d.escapePattern (searchedText v)
  .text (if op = .contains then s!"%{escaped}%" else s!"{escaped}%")

def patternCondition (d : Dialect) (c : Condition) (v : BoundValue) : Draft :=
  let form := d.matchForm c.type
  form.before ++ columnOf c.aliasName c.column ++ form.between ++
    .value c.column (d.pattern c.operator v) (some .text) :: form.after

def relation (c : Condition) (v : BoundValue) : Draft :=
  spaced [columnOf c.aliasName c.column, [.relation c.operator], [.value c.column v (some c.type)]]

/-- The draft of one condition. Null is compared without a value. A list goes with `in` only; any
other operator would take its first value. -/
def condition (d : Dialect) (c : Condition) : Draft :=
  let column := columnOf c.aliasName c.column
  match c.operator, c.operand with
  | .eq, .single .null => spaced [column, words [.IS, .NULL]]
  | .ne, .single .null => spaced [column, words [.IS, .NOT, .NULL]]
  | .within, .list vs =>
    let placeholders := vs.map fun v => [Part.value c.column v (some c.type)]
    spaced [column, [.keyword .IN], enclosed (listed placeholders)]
  | .contains, .single v | .startsWith, .single v => d.patternCondition c v
  | _, .single v => relation c v
  | _, .list vs => relation c (vs.head?.getD .null)

def combinator : Combinator → Keyword
  | .and => .AND
  | .or => .OR

def filter (d : Dialect) : Filter → Draft
  | .condition c => d.condition c
  | .combined left op right =>
    spaced [d.filter left, [.keyword (combinator op)], d.filter right]
  | .group inner => enclosed (d.filter inner)

/-- The cast without which a column of this type could not be read back. -/
def castBack? (d : Dialect) (type : DataType) : Option Draft :=
  if d = .postgres ∧ type = .decimal then some [.mark .cast, .keyword .textType] else none

def labelled (label : String) : Draft :=
  [.mark .space, .keyword .AS, .mark .space, .name label]

/-- What follows a column that is read under the name `output`. -/
def readAs (d : Dialect) (type : DataType) (output : String) : Draft :=
  match d.castBack? type with
  | some cast => cast ++ labelled output
  | none => []

def selectItem (d : Dialect) : SelectItem → Draft
  | .wildcard aliasName => [.name aliasName, .mark .dot, .mark .star]
  | .column aliasName column label type =>
    columnOf aliasName column ++
      match d.castBack? type, label with
      | some cast, label => cast ++ labelled (label.getD column)
      | none, some label => labelled label
      | none, none => []

def selectItems (d : Dialect) (items : List SelectItem) : Draft := listed (items.map d.selectItem)

def columns (d : Dialect) (cs : List Column) : Draft :=
  listed (cs.map fun c => .name c.name :: d.readAs c.type c.name)

/-- How a statement that changes a row hands it back. -/
inductive RowReturn
  /-- A clause at the end of the statement. -/
  | suffix (clause : Draft)
  /-- A clause before the values, or before the predicate. -/
  | output (clause : Draft)
  /-- Not at all: another statement selects the row. -/
  | selectBack

def rowReturn (d : Dialect) (cs : List Column) : RowReturn :=
  match d with
  | .postgres | .sqlite => .suffix (spaced [[.keyword .RETURNING], d.columns cs])
  | .sqlServer =>
    let inserted := cs.map fun c => [Part.keyword .INSERTED, .mark .dot, .name c.name]
    .output (spaced [[.keyword .OUTPUT], listed inserted])
  | .mysql => .selectBack

/-- The key that the last insertion made up. -/
def lastKey? (d : Dialect) : Option Draft :=
  if d = .mysql then some [.keyword .lastInsertId, .mark .opening, .mark .closing] else none

def direction : Direction → Keyword
  | .ascending => .ASC
  | .descending => .DESC

def sortKey (k : SortKey) : Draft :=
  spaced [columnOf k.aliasName k.column, [.keyword (direction k.direction)]]

def sortKeys (ks : List SortKey) : Draft := listed (ks.map sortKey)

/-- A join, with a blank before it. -/
def join (d : Dialect) (j : Join) : Draft :=
  .mark .space :: spaced
    [words [.LEFT, .OUTER, .JOIN], d.table j.childSchema j.childTable, [.keyword .AS],
      [.name j.childAlias], [.keyword .ON],
      equals (columnOf j.parentAlias j.parentColumn) (columnOf j.childAlias j.childColumn)]

def joins (d : Dialect) (js : List Join) : Draft := js.flatMap d.join

/-- An order that orders nothing, for an engine that pages ordered rows only. -/
def constantOrder : Draft :=
  spaced [words [.ORDER, .BY], enclosed (words [.SELECT, .NULL])]

def paging (d : Dialect) (p : Paging) (ordered : Bool) : Draft :=
  if d = .sqlServer then
    let page :=
      spaced [[.keyword .OFFSET], [.number p.offset], words [.ROWS, .FETCH, .NEXT],
        [.number p.limit], words [.ROWS, .ONLY]]
    if ordered then page else spaced [constantOrder, page]
  else spaced [[.keyword .LIMIT], [.number p.limit], [.keyword .OFFSET], [.number p.offset]]

end Dialect

end TableGateway
