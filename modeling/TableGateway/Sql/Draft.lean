import TableGateway.Query.Filter.Basic
import TableGateway.Sql.Dialect
import TableGateway.Sql.Parameters

/-!
# Statement drafts

A draft is a statement as a list of parts, with names not yet quoted and bound values standing where
they belong. Writing a draft quotes the names and puts a placeholder in place of each value; the
values in their order of appearance are the parameters of the statement. So text comes from names,
numbers and a fixed stock of words and marks, and never from a value.
-/

namespace TableGateway

inductive Keyword
  | SELECT | FROM | AS | WHERE | AND | OR | ORDER | BY | ASC | DESC | LIMIT | OFFSET | ROWS | FETCH
  | NEXT | ONLY | COUNT | NULL | IS | NOT | IN | LIKE | ILIKE | LOWER | ESCAPE | LEFT | OUTER | JOIN
  | ON | INSERT | INTO | VALUES | DEFAULT | UPDATE | SET | DELETE | RETURNING | OUTPUT | INSERTED
  | lastInsertId
  | textType
deriving DecidableEq, Repr

namespace Keyword

def text : Keyword → String
  | .SELECT => "SELECT"
  | .FROM => "FROM"
  | .AS => "AS"
  | .WHERE => "WHERE"
  | .AND => "AND"
  | .OR => "OR"
  | .ORDER => "ORDER"
  | .BY => "BY"
  | .ASC => "ASC"
  | .DESC => "DESC"
  | .LIMIT => "LIMIT"
  | .OFFSET => "OFFSET"
  | .ROWS => "ROWS"
  | .FETCH => "FETCH"
  | .NEXT => "NEXT"
  | .ONLY => "ONLY"
  | .COUNT => "COUNT"
  | .NULL => "NULL"
  | .IS => "IS"
  | .NOT => "NOT"
  | .IN => "IN"
  | .LIKE => "LIKE"
  | .ILIKE => "ILIKE"
  | .LOWER => "LOWER"
  | .ESCAPE => "ESCAPE"
  | .LEFT => "LEFT"
  | .OUTER => "OUTER"
  | .JOIN => "JOIN"
  | .ON => "ON"
  | .INSERT => "INSERT"
  | .INTO => "INTO"
  | .VALUES => "VALUES"
  | .DEFAULT => "DEFAULT"
  | .UPDATE => "UPDATE"
  | .SET => "SET"
  | .DELETE => "DELETE"
  | .RETURNING => "RETURNING"
  | .OUTPUT => "OUTPUT"
  | .INSERTED => "INSERTED"
  | .lastInsertId => "LAST_INSERT_ID"
  | .textType => "text"

end Keyword

inductive Mark
  | space | dot | comma | opening | closing | star | cast
  /-- The string literal of one backslash. -/
  | backslash
deriving DecidableEq, Repr

def Mark.text : Mark → String
  | .space => " "
  | .dot => "."
  | .comma => ","
  | .opening => "("
  | .closing => ")"
  | .star => "*"
  | .cast => "::"
  | .backslash => "'\\'"

inductive Part
  | keyword (k : Keyword)
  | mark (m : Mark)
  | relation (op : Comparison)
  | name (s : String)
  | number (n : Int)
  | value (hint : String) (v : BoundValue) (type : Option DataType)

abbrev Draft := List Part

namespace Part

/-- An operator without a symbol of its own compares for equality. -/
def relationText (op : Comparison) : String := op.symbol?.getD "="

/-- The parameters after a part, of which only a value adds one. -/
def bind (ps : Parameters) : Part → Parameters
  | .value hint v _ => ps.push hint v
  | _ => ps

/-- The text of a part that comes after parts with the parameters `ps`. -/
def write (d : Dialect) (ps : Parameters) : Part → List Char
  | .keyword k => k.text.toList
  | .mark m => m.text.toList
  | .relation op => (relationText op).toList
  | .name s => d.quote s
  | .number n => Text.signedDecimal n
  | .value hint _ type => d.placeholder (ps.size + 1) (ps.freshName hint) type

end Part

namespace Draft

/-- The parameters after a draft that is written after parts with the parameters `ps`. -/
def bind (ps : Parameters) (draft : Draft) : Parameters := draft.foldl Part.bind ps

def write (d : Dialect) (ps : Parameters) : Draft → List Char
  | [] => []
  | part :: rest => part.write d ps ++ write d (part.bind ps) rest

def toText (draft : Draft) (d : Dialect) : String := String.ofList (write d {} draft)

def parameters (draft : Draft) : Parameters := bind {} draft

theorem bind_append (ps : Parameters) (a b : Draft) : bind ps (a ++ b) = bind (bind ps a) b :=
  List.foldl_append

def spaced (drafts : List Draft) : Draft := [Part.mark .space].intercalate drafts

def listed (drafts : List Draft) : Draft := [Part.mark .comma, .mark .space].intercalate drafts

def enclosed (draft : Draft) : Draft := .mark .opening :: draft ++ [.mark .closing]

def words (ks : List Keyword) : Draft := spaced (ks.map fun k => [.keyword k])

/-- A column of an entity that is known by an alias. -/
def columnOf (aliasName column : String) : Draft := [.name aliasName, .mark .dot, .name column]

def equals (left right : Draft) : Draft := spaced [left, [.relation .eq], right]

end Draft

end TableGateway
