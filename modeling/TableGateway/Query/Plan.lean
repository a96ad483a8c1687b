import TableGateway.Number.Numeral
import TableGateway.Query.Filter.Parser
import TableGateway.Query.Projection
import TableGateway.Query.Sort

/-!
# Query plans

The parameters of a query string that mean something are its options. A plan has all parts of a
query, checked against the entity and the catalog, with limit and offset brought into the configured
bounds.
-/

namespace TableGateway

structure QueryOptions where
  filter : Option String := none
  sort : Option String := none
  fields : Option String := none
  includes : Option String := none
  limit : Option Int := none
  offset : Option Int := none
deriving DecidableEq, Repr

namespace QueryOptions

/-- The nearest integer of 64 bits. -/
def saturate (n : Int) : Int := max Numeral.minInt64 (min n Numeral.maxInt64)

def readPaging (key value : String) : Except QueryError Int :=
  match Numeral.readInteger? (Text.trim value.toList) with
  | some n => .ok (saturate n)
  | none => .error (.invalidPaging key value)

/-- Takes in one parameter. Keys have no case, unknown ones are passed over, and of two parameters
with one key the later counts. -/
def add (o : QueryOptions) (parameter : String × String) : Except QueryError QueryOptions :=
  let (key, value) := parameter
  match Text.lowered key with
  | "filter" => .ok { o with filter := some value }
  | "sort" => .ok { o with sort := some value }
  | "fields" => .ok { o with fields := some value }
  | "include" => .ok { o with includes := some value }
  | "limit" => (readPaging "limit" value).map fun n => { o with limit := some n }
  | "offset" => (readPaging "offset" value).map fun n => { o with offset := some n }
  | _ => .ok o

def ofParameters (parameters : List (String × String)) : Except QueryError QueryOptions :=
  parameters.foldlM add {}

end QueryOptions

structure PagingLimits where
  least : Int := 25
  greatest : Int := 5000
deriving DecidableEq, Repr

structure Paging where
  limit : Int
  offset : Int
deriving DecidableEq, Repr

namespace Paging

/-- A limit that is missing or not positive becomes the least one. -/
def compile (limits : PagingLimits) (limit offset : Option Int) : Paging :=
  let n := limit.getD 0
  { limit := if n ≤ 0 then limits.least else min n limits.greatest
    offset := max (offset.getD 0) 0 }

end Paging

structure QueryPlan where
  filter : Option Filter
  sort : List SortKey
  fields : List SelectItem
  joins : List Join
  paging : Paging

namespace QueryPlan

def liftQuery {α : Type} (x : Except QueryError α) : Except StatementError α :=
  x.mapError StatementError.query

/-- The first fault counts, in the order include, fields, filter, sort. -/
def compile (catalog : Catalog) (e : Entity) (limits : PagingLimits) (o : QueryOptions) :
    Except StatementError QueryPlan := do
  let joins ← (o.includes.map (Join.compile catalog e)).getD (.ok [])
  let fields ← liftQuery (SelectItem.compile catalog e joins (o.fields.getD "*"))
  let filter ← liftQuery (o.filter.mapM (Filter.compile e))
  let sort ← liftQuery ((o.sort.map (SortKey.compile e)).getD (.ok []))
  .ok { filter, sort, fields, joins, paging := .compile limits o.limit o.offset }

end QueryPlan

end TableGateway
