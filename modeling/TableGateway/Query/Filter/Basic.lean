import TableGateway.BoundValue

/-!
# Filters

A filter is a tree of conditions on the columns of one entity. A group is a subtree that was
written in parentheses; it stays in the tree so that the filter can be written out again without
parentheses of its own.
-/

namespace TableGateway

inductive Comparison
  | eq | ne | gt | ge | lt | le | within | contains | startsWith
deriving DecidableEq, Repr

namespace Comparison

def all : List Comparison := [.eq, .ne, .gt, .ge, .lt, .le, .within, .contains, .startsWith]

def word : Comparison → String
  | .eq => "eq"
  | .ne => "ne"
  | .gt => "gt"
  | .ge => "ge"
  | .lt => "lt"
  | .le => "le"
  | .within => "in"
  | .contains => "ct"
  | .startsWith => "sw"

def ofWord? (w : List Char) : Option Comparison :=
  all.find? fun c => w.map Char.toLower = c.word.toList

/-- The operator between two operands of a statement, for operators that have one. -/
def symbol? : Comparison → Option String
  | .eq => some "="
  | .ne => some "<>"
  | .gt => some ">"
  | .ge => some ">="
  | .lt => some "<"
  | .le => some "<="
  | .within | .contains | .startsWith => none

/-- Whether the operand is a piece of text that is searched for. -/
def isPattern (c : Comparison) : Bool := c = .contains || c = .startsWith

/-- Whether the operand may be null. -/
def allowsNull (c : Comparison) : Bool := c = .eq || c = .ne

end Comparison

inductive Combinator
  | and | or
deriving DecidableEq, Repr

namespace Combinator

def word : Combinator → String
  | .and => "AND"
  | .or => "OR"

def ofWord? (w : List Char) : Option Combinator :=
  [Combinator.and, .or].find? fun c => w.map Char.toLower = Text.folded c.word

end Combinator

inductive Operand
  | single (v : BoundValue)
  | list (vs : List BoundValue)

/-- A comparison of one column, which carries its catalog spelling. -/
structure Condition where
  aliasName : String
  column : String
  type : DataType
  operator : Comparison
  operand : Operand

inductive Filter
  | condition (c : Condition)
  | combined (left : Filter) (op : Combinator) (right : Filter)
  | group (inner : Filter)

/-- The conditions in the order in which they were written. -/
def Filter.conditions : Filter → List Condition
  | .condition c => [c]
  | .combined left _ right => left.conditions ++ right.conditions
  | .group inner => inner.conditions

end TableGateway
