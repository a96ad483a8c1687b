import TableGateway.Catalog.Basic
import TableGateway.Text.Basic

/-!
# SQL dialects

What the four engines write differently by themselves: quoted names, placeholders and the escapes
in patterns. A closing quote inside a quoted name is written twice.
-/

namespace TableGateway

inductive Dialect
  | postgres | mysql | sqlite | sqlServer
deriving DecidableEq, Repr

namespace Dialect

def all : List Dialect := [.postgres, .mysql, .sqlite, .sqlServer]

def name : Dialect → String
  | .postgres => "postgres"
  | .mysql => "mysql"
  | .sqlite => "sqlite"
  | .sqlServer => "sqlserver"

/-- A dialect by one of its usual names, in any case. -/
def ofName? (s : String) : Option Dialect :=
  match Text.lowered (Text.trimmed s) with
  | "postgres" | "postgresql" | "pg" => some .postgres
  | "mysql" | "mariadb" => some .mysql
  | "sqlite" => some .sqlite
  | "sqlserver" | "mssql" => some .sqlServer
  | _ => none

def openQuote : Dialect → Char
  | .mysql => '\x60'
  | .sqlServer => '['
  | .postgres | .sqlite => '"'

def closeQuote : Dialect → Char
  | .mysql => '\x60'
  | .sqlServer => ']'
  | .postgres | .sqlite => '"'

def quoteChars (d : Dialect) (s : List Char) : List Char :=
  d.openQuote :: s.flatMap (fun c => if c = d.closeQuote then [c, c] else [c]) ++ [d.closeQuote]

def quote (d : Dialect) (s : String) : List Char := d.quoteChars s.toList

/-- The type that PostgreSQL is told for a placeholder. -/
def castName? : DataType → Option String
  | .integer => some "bigint"
  | .decimal => some "numeric"
  | .float => some "double precision"
  | .text => some "text"
  | .boolean => some "boolean"
  | .datetime => some "timestamptz"
  | .date => some "date"
  | .time => some "time"
  | .uuid => some "uuid"
  | .json => some "jsonb"
  | .other => none

def castText (type : Option DataType) : List Char :=
  match type.bind castName? with
  | some name => "::".toList ++ name.toList
  | none => []

/-- The placeholder of a parameter, which has an index from one and a name. -/
def placeholder (d : Dialect) (index : Nat) (name : String) (type : Option DataType) : List Char :=
  match d with
  | .postgres => '$' :: Text.decimal index ++ castText type
  | .mysql => ['?']
  | .sqlite => ':' :: name.toList
  | .sqlServer => '@' :: name.toList

/-- A character of a pattern that matches itself only. -/
def escapePatternChar (d : Dialect) (c : Char) : List Char :=
  if d = .sqlServer then
    if c = '[' ∨ c = '%' ∨ c = '_' then ['[', c, ']'] else [c]
  else if c = '\\' ∨ c = '%' ∨ c = '_' then ['\\', c]
  else [c]

def escapePattern (d : Dialect) (s : String) : String :=
  String.ofList (s.toList.flatMap d.escapePatternChar)

end Dialect

end TableGateway
