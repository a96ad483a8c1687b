import TableGateway.Sql.Clause

/-!
# Statements that read

The page of a list with the count of all its rows, and a single row by its key. Rows of a page are
ordered by the primary key after everything else, so that pages do not overlap.
-/

namespace TableGateway

/-- A statement for one engine. Its text and its parameters are read off the draft. -/
structure Statement where
  dialect : Dialect
  draft : Draft

namespace Statement

def text (s : Statement) : String := s.draft.toText s.dialect

def parameters (s : Statement) : Parameters := s.draft.parameters

end Statement

namespace Entity

/-- The key of an entity and the value that an id has for it. -/
def keyValue (e : Entity) (id : String) : Except StatementError (Column × BoundValue) := do
  let key ← e.requireKey
  let v ← (BoundValue.ofText key id).mapError StatementError.query
  .ok (key, v)

def table (e : Entity) (d : Dialect) : Draft := d.table e.schema e.name

/-- The sort keys with the primary key as the last one. -/
def ordering (e : Entity) (sort : List SortKey) : List SortKey :=
  match e.primaryKey? with
  | none => sort
  | some key =>
    let isKey (k : SortKey) : Bool := k.aliasName = e.aliasName && k.column = key.name
    if sort.getLast?.any isKey then sort else sort ++ [⟨e.aliasName, key.name, .ascending⟩]

theorem forall_mem_ordering {P : SortKey → Prop} {e : Entity} {sort : List SortKey}
    (h : ∀ k ∈ sort, P k)
    (hKey : ∀ key, e.primaryKey? = some key → P ⟨e.aliasName, key.name, .ascending⟩) :
    ∀ k ∈ e.ordering sort, P k := by
  rw [ordering]
  split
  · exact h
  · next key hFound =>
    extract_lets isKey
    split
    · exact h
    · rw [List.forall_mem_append, List.forall_mem_singleton]
      exact ⟨h, hKey key hFound⟩

def expand (e : Entity) : SelectItem → List SelectItem
  | .wildcard aliasName => e.columns.map fun c => .column aliasName c.name none c.type
  | item => [item]

/-- Whether some column has to be cast to be read back. -/
def needsCast (e : Entity) (d : Dialect) : Bool :=
  e.columns.any fun c => (d.castBack? c.type).isSome

/-- The projection of a query. A wildcard is spelled out where a column needs a cast. -/
def projection (e : Entity) (d : Dialect) (items : List SelectItem) : Draft :=
  d.selectItems (if e.needsCast d then items.flatMap e.expand else items)

def source (e : Entity) (d : Dialect) (js : List Join) : Draft :=
  Draft.spaced [e.table d, [.keyword .AS], [.name e.aliasName]] ++ d.joins js

end Entity

structure ListStatements where
  select : Statement
  count : Statement

namespace Statement

open Draft

def predicate (d : Dialect) (filter : Option Filter) : List Draft :=
  filter.toList.map fun f => spaced [[.keyword .WHERE], d.filter f]

def orderClause (keys : List SortKey) : List Draft :=
  if keys.isEmpty then [] else [spaced [words [.ORDER, .BY], Dialect.sortKeys keys]]

/-- A page of an entity and the count of the rows that all pages have together. -/
def list (d : Dialect) (e : Entity) (q : QueryPlan) : ListStatements :=
  let keys := e.ordering q.sort
  let source := [[.keyword .FROM], e.source d q.joins] ++ predicate d q.filter
  let page := orderClause keys ++ [d.paging q.paging !keys.isEmpty]
  let select := [[.keyword .SELECT], e.projection d q.fields] ++ source ++ page
  let count := [[.keyword .SELECT], .keyword .COUNT :: enclosed [.mark .star]] ++ source
  ⟨⟨d, spaced select⟩, ⟨d, spaced count⟩⟩

/-- One row of an entity by its id. Filter, order and page of the query do not matter. -/
def read (d : Dialect) (e : Entity) (q : QueryPlan) (id : String) :
    Except StatementError Statement := do
  let (key, v) ← e.keyValue id
  .ok
    { dialect := d
      draft := spaced
        [[.keyword .SELECT], e.projection d q.fields, [.keyword .FROM], e.source d q.joins,
          [.keyword .WHERE],
          equals (columnOf e.aliasName key.name) [.value key.name v (some key.type)]] }

end Statement

end TableGateway
