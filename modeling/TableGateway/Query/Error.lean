import TableGateway.Catalog.Basic
import TableGateway.Patch.Fault
import TableGateway.Query.Filter.Lexeme

/-!
# Rejected input

Every way in which a query string, a literal, an id or a patch is refused, each with its message.
Which of them arises depends on the input and the catalog alone.
-/

namespace TableGateway

/-- How the parentheses of a filter fail to match. -/
inductive Imbalance
  /-- A closing one too many, after at most three lexemes that are shown. -/
  | unexpectedClosing (after : List Lexeme)
  | open (count : Nat)
  /-- The filter ends inside a group or a list. -/
  | endOfFilter
deriving DecidableEq, Repr

inductive FilterFault
  | unterminated (content : List Char)
  | tooDeep
  | tooManyConditions
  | missingCombinator (before : Lexeme)
  | emptyParentheses
  | unclosedGroup (before : Lexeme)
  | unexpected (l : Lexeme)
  | missingCondition
  | missingOperator (column : String)
  | missingValue (column : String)
  | missingList (column : String)
  | emptyList (column : String)
  | unexpectedInList (l : Lexeme) (column : String)
  | unseparatedList (found : Lexeme)
deriving DecidableEq, Repr

inductive Expected
  | literalOf (type : DataType)
  | nonNull
deriving DecidableEq, Repr

inductive QueryError
  | emptyFilter
  | unbalanced (how : Imbalance)
  | danglingOperator (word : List Char)
  | reversedCondition (shown : List Lexeme)
  | invalidOperator (found : Lexeme)
  | malformedFilter (fault : FilterFault)
  | invalidLiteral (column value : String) (expected : Expected)
  | unknownColumn (entity column : String)
  | invalidSortColumn (name : String)
  | invalidSortDirection (name : String)
  | malformedSortKey (key : String)
  | invalidField (name : String)
  | unknownEntity (name : String)
  | noRelationship (parent child : String)
  | duplicateInclude (entity : String)
  | malformedInclude (raw : String)
  | invalidPaging (key value : String)
  | invalidPatch (fault : PatchFault)

/-- Deepest nesting of parentheses in a filter. -/
def maxFilterDepth : Nat := 64

/-- Most conditions that a filter combines. -/
def maxFilterConditions : Nat := 256

namespace Imbalance

def message : Imbalance → String
  | .unexpectedClosing after => s!"unexpected ')' after '{Lexeme.phrase after}'"
  | .open count => s!"{count} '(' never closed"
  | .endOfFilter => "'(' never closed"

end Imbalance

namespace FilterFault

def message : FilterFault → String
  | .unterminated content => s!"unterminated string '{String.ofList content}"
  | .tooDeep => s!"parentheses nested deeper than {maxFilterDepth} levels"
  | .tooManyConditions => s!"more than {maxFilterConditions} conditions"
  | .missingCombinator l => s!"expected AND or OR before '{l.text}'"
  | .emptyParentheses => "empty parentheses"
  | .unclosedGroup l => s!"expected ')' or boolean operator before '{l.text}'"
  | .unexpected l => s!"unexpected '{l.text}'"
  | .missingCondition => "expected a condition"
  | .missingOperator column => s!"condition on '{column}' is missing an operator"
  | .missingValue column => s!"condition on '{column}' is missing a value"
  | .missingList column => s!"'in' on '{column}' expects a parenthesized list"
  | .emptyList column => s!"empty 'in' list on '{column}'"
  | .unexpectedInList l column => s!"unexpected '{l.text}' in 'in' list on '{column}'"
  | .unseparatedList l => s!"expected ',' or ')' in 'in' list, found '{l.text}'"

end FilterFault

namespace Expected

def description : Expected → String
  | .literalOf type => type.description
  | .nonNull => "a non-null value"

end Expected

namespace QueryError

def message : QueryError → String
  | .emptyFilter => "filter is empty"
  | .unbalanced how => s!"unbalanced parenthesis in filter: {how.message}"
  | .danglingOperator word =>
    s!"boolean operator '{String.ofList word}' is not followed by a condition"
  | .reversedCondition shown =>
    s!"condition '{Lexeme.phrase shown}' must start with a column name, not a value"
  | .invalidOperator found =>
    s!"unknown operator '{found.text}' (expected eq, ne, gt, ge, lt, le, in, ct or sw)"
  | .malformedFilter fault => s!"malformed filter: {fault.message}"
  | .invalidLiteral column value expected =>
    s!"invalid value '{value}' for column '{column}': expected {expected.description}"
  | .unknownColumn entity column => s!"unknown column '{column}' on entity '{entity}'"
  | .invalidSortColumn name => s!"invalid sort column '{name}'"
  | .invalidSortDirection name => s!"invalid sort direction '{name}' (expected asc or desc)"
  | .malformedSortKey key =>
    s!"malformed sort key '{key}' (expected column or column:direction)"
  | .invalidField name => s!"invalid field '{name}'"
  | .unknownEntity name => s!"unknown entity '{name}'"
  | .noRelationship parent child => s!"no relationship found between '{parent}' and '{child}'"
  | .duplicateInclude entity => s!"entity '{entity}' appears more than once in include"
  | .malformedInclude raw => s!"malformed include '{raw}'"
  | .invalidPaging key value => s!"{key} must be an integer, got '{value}'"
  | .invalidPatch fault => s!"invalid patch: {fault.message}"

end QueryError

/-- Why no statement is made: the input, or an entity without the key that is needed. -/
inductive StatementError
  | query (error : QueryError)
  | missingPrimaryKey (entity : String)

namespace StatementError

def message : StatementError → String
  | .query error => error.message
  | .missingPrimaryKey entity => s!"entity '{entity}' has no primary key"

end StatementError

/-- The primary key, without which no single row can be addressed. -/
def Entity.requireKey (e : Entity) : Except StatementError Column :=
  match e.primaryKey? with
  | some key => .ok key
  | none => .error (.missingPrimaryKey e.name)

end TableGateway
