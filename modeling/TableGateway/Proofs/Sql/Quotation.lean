import TableGateway.Audit.Log
import TableGateway.Proofs.Sql.Mention

/-!
# Names in their quotes

A quoted name ends where its quotes say, whatever the name holds and whatever comes next. So a
statement is made of the names that it is about, decimals, placeholders, and otherwise tokens of one
fixed stock. The stock and the names are given here without regard to how statements are written.
-/

namespace TableGateway

/-- What a statement holds apart from placeholders and fixed tokens. -/
inductive Content
  | name (s : String)
  | decimal (digits : List Char)
deriving DecidableEq

namespace Token

def content? : Token → Option Content
  | .name s => some (.name (String.ofList s))
  | .word w => if w.all Char.isDigit then some (.decimal w) else none
  | _ => none

/-- The words of all statements of all engines, with the types of casts. -/
def vocabulary : List String :=
  ["SELECT", "FROM", "AS", "WHERE", "AND", "OR", "ORDER", "BY", "ASC", "DESC", "LIMIT", "OFFSET",
    "ROWS", "FETCH", "NEXT", "ONLY", "COUNT", "NULL", "IS", "NOT", "IN", "LIKE", "ILIKE", "LOWER",
    "ESCAPE", "LEFT", "OUTER", "JOIN", "ON", "INSERT", "INTO", "VALUES", "DEFAULT", "UPDATE", "SET",
    "DELETE", "RETURNING", "OUTPUT", "INSERTED", "LAST_INSERT_ID", "bigint", "numeric", "double",
    "precision", "text", "boolean", "timestamptz", "date", "time", "uuid", "jsonb"]

/-- The minus sign stands before a negative decimal, and colons before the type of a cast. -/
def marks : List Char := ['.', ',', '(', ')', '*', '=', '<', '>', ':', '-']

/-- Whether the token is of the fixed stock. The only literal is the escape of patterns. -/
def isFixed (d : Dialect) : Token → Bool
  | .word w => vocabulary.contains (String.ofList w)
  | .mark c => marks.contains c
  | .literal s => d = .sqlite && s = ['\\']
  | .name _ | .placeholder _ => false

end Token

/-- The text is read as these names and decimals in their order, the placeholders of the parameters,
and fixed tokens. At its end nothing is left open. -/
structure Statement.Consists (s : Statement) (contents : List Content) : Prop where
  contents : s.tokens.filterMap Token.content? = contents
  references : s.tokens.filterMap Token.reference? = s.dialect.references s.parameters
  fixed : ∀ t ∈ s.tokens, t.content? = none → t.reference? = none → t.isFixed s.dialect = true
  ends : ∀ rest,
    s.dialect.tokens (s.text.toList ++ ' ' :: rest) = s.tokens ++ s.dialect.tokens rest

namespace Part

variable {d : Dialect} {ps : Parameters}

def content? : Part → Option Content
  | .name s => some (.name s)
  | .number n => some (.decimal (Text.decimal n.natAbs))
  | _ => none

theorem content?_castTokens (d : Dialect) (type : Option DataType) :
    (castTokens d type).filterMap Token.content? = [] := by
  cases type with
  | none => cases d <;> rfl
  | some type => cases d <;> cases type <;> rfl

theorem content?_decimal (n : Nat) :
    Token.content? (.word (Text.decimal n)) = some (.decimal (Text.decimal n)) := by
  rw [Token.content?, if_pos]
  exact List.all_eq_true.mpr fun _ hc => Text.isDigit_of_mem_decimal hc

theorem content?_tokens (d : Dialect) (ps : Parameters) (p : Part) :
    (p.tokens d ps).filterMap Token.content? = p.content?.toList := by
  cases p with
  | value hint v type => exact content?_castTokens d type
  | mark m => cases m <;> rfl
  | relation op => cases op <;> rfl
  | number n => exact filterMap_number rfl (content?_decimal _) d ps
  | keyword k => cases k <;> rfl
  | name s => simp [tokens, Token.content?, content?]

theorem isFixed_castTokens (type : Option DataType) :
    ∀ t ∈ castTokens d type, t.isFixed d = true := by
  rw [← List.all_eq_true]
  cases type with
  | none => cases d <;> rfl
  | some type => cases d <;> cases type <;> decide +kernel

theorem isFixed_word (k : Keyword) : Token.isFixed d (.word k.text.toList) = true := by
  change Token.vocabulary.contains (String.ofList k.text.toList) = true
  cases k <;> decide

theorem isFixed_of_mem_tokens {p : Part} {t : Token} (hReadable : p.isReadable d = true)
    (ht : t ∈ p.tokens d ps) (hContent : t.content? = none) (hReference : t.reference? = none) :
    t.isFixed d = true := by
  have hOf {ts : List Token} (h : ts.all (Token.isFixed d) = true) (ht : t ∈ ts) :
      t.isFixed d = true := List.all_eq_true.mp h t ht
  cases p with
  | keyword k =>
    cases List.mem_singleton.mp ht
    exact isFixed_word k
  | mark m =>
    cases m with
    | backslash =>
      cases of_decide_eq_true hReadable
      exact hOf rfl ht
    | _ => exact hOf rfl ht
  | relation op => exact hOf (by cases op <;> rfl) ht
  | name s =>
    cases List.mem_singleton.mp ht
    cases hContent
  | number n =>
    have hDigits {m : Nat} : t ≠ .word (Text.decimal m) := by
      rintro rfl
      cases (content?_decimal m).symm.trans hContent
    rw [tokens] at ht
    split at ht
    · rcases List.mem_cons.mp ht with rfl | ht
      · rfl
      · exact absurd (List.mem_singleton.mp ht) hDigits
    · exact absurd (List.mem_singleton.mp ht) hDigits
  | value hint v type =>
    rcases List.mem_cons.mp ht with rfl | ht
    · cases hReference
    · exact isFixed_castTokens type t ht

end Part

namespace Draft

variable {d : Dialect} {a : Draft}

def contents (a : Draft) : List Content := a.filterMap Part.content?

theorem isFixed_of_mem_tokens {t : Token} (ps : Parameters)
    (h : ∀ p ∈ a, p.isReadable d = true) (ht : t ∈ a.tokens d ps) (hContent : t.content? = none)
    (hReference : t.reference? = none) : t.isFixed d = true := by
  induction a generalizing ps with
  | nil => cases ht
  | cons p rest ih =>
    rw [List.forall_mem_cons] at h
    rcases List.mem_append.mp ht with ht | ht
    · exact Part.isFixed_of_mem_tokens h.1 ht hContent hReference
    · exact ih _ h.2 ht

@[simp] theorem contents_nil : Draft.contents [] = [] := rfl

@[simp] theorem contents_append (a b : Draft) :
    Draft.contents (a ++ b) = a.contents ++ b.contents :=
  List.filterMap_append

@[simp] theorem contents_keyword (k : Keyword) : Draft.contents [.keyword k] = [] := rfl

@[simp] theorem contents_name (s : String) : Draft.contents [.name s] = [.name s] := rfl

@[simp] theorem contents_value (hint : String) (v : BoundValue) (type : Option DataType) :
    Draft.contents [.value hint v type] = [] := rfl

@[simp] theorem contents_spaced (drafts : List Draft) :
    (spaced drafts).contents = drafts.flatMap contents :=
  filterMap_intercalate rfl drafts

@[simp] theorem contents_listed (drafts : List Draft) :
    (listed drafts).contents = drafts.flatMap contents :=
  filterMap_intercalate rfl drafts

@[simp] theorem contents_enclosed (a : Draft) : (enclosed a).contents = a.contents := by
  rw [enclosed, contents_append]
  exact List.append_nil a.contents

@[simp] theorem contents_words (ks : List Keyword) : (words ks).contents = [] := by
  rw [words, contents_spaced, List.flatMap_map]
  exact List.flatMap_eq_nil_iff.mpr fun _ _ => rfl

@[simp] theorem contents_columnOf (aliasName column : String) :
    (columnOf aliasName column).contents = [.name aliasName, .name column] := rfl

@[simp] theorem contents_equals (a b : Draft) :
    (equals a b).contents = a.contents ++ b.contents := by
  rw [equals, contents_spaced]
  simp [contents, Part.content?]

end Draft

theorem Statement.Consists.of_draft {s : Statement} {contents : List Content}
    (h : Draft.Legible s.dialect s.draft) (hContents : s.draft.contents = contents) :
    s.Consists contents where
  contents := by
    rw [tokens_eq h, Draft.filterMap_tokens (Part.content?_tokens s.dialect)]
    exact hContents
  references := by
    rw [tokens_eq h]
    exact Draft.reference?_tokens s.dialect {} s.draft
  fixed := by
    rw [tokens_eq h]
    exact fun _ => Draft.isFixed_of_mem_tokens {} h.isReadable
  ends := by
    intro rest
    have hStops : Text.Stops s.dialect.isContinuing (' ' :: rest) := by
      rintro c ⟨⟩
      cases s.dialect <;> decide
    rw [tokens_eq h, text, Draft.toText, String.toList_ofList,
      Draft.tokens_write_append {} h hStops, Dialect.tokens_space]

def Dialect.tableNames (d : Dialect) (schema table : String) : List String :=
  if schema = "" ∨ d = .sqlite then [table] else [schema, table]

/-- A label of its own goes behind a column, or its name where the column is cast. -/
def SelectItem.names (d : Dialect) : SelectItem → List String
  | .wildcard aliasName => [aliasName]
  | .column aliasName name label type =>
    [aliasName, name] ++
      if d = .postgres ∧ type = .decimal then [label.getD name] else label.toList

def Column.readNames (d : Dialect) (c : Column) : List String :=
  c.name :: if d = .postgres ∧ c.type = .decimal then [c.name] else []

def Condition.names (c : Condition) : List String := [c.aliasName, c.column]

def SortKey.names (k : SortKey) : List String := [k.aliasName, k.column]

def Join.names (d : Dialect) (j : Join) : List String :=
  d.tableNames j.childSchema j.childTable ++
    [j.childAlias, j.parentAlias, j.parentColumn, j.childAlias, j.childColumn]

/-- The names by which a changed row is handed back: those before the values or the predicate, and
those at the end. -/
def Dialect.returnedNames (d : Dialect) (cs : List Column) : List String × List String :=
  match d with
  | .postgres | .sqlite => ([], cs.flatMap (Column.readNames d))
  | .sqlServer => (cs.map Column.name, [])
  | .mysql => ([], [])

def Paging.decimals (d : Dialect) (p : Paging) : List Content :=
  let decimal (n : Int) : Content := .decimal (Text.decimal n.natAbs)
  if d = .sqlServer then [decimal p.offset, decimal p.limit]
  else [decimal p.limit, decimal p.offset]

namespace Dialect

open Draft

variable {d : Dialect}

@[simp] theorem contents_table (schema table : String) :
    (d.table schema table).contents = (d.tableNames schema table).map .name := by
  rw [Dialect.table, tableNames]
  split <;> rfl

theorem contents_condition (c : Condition) :
    (d.condition c).contents = c.names.map .name := by
  have hRelation (v : BoundValue) : (relation c v).contents = c.names.map .name := by
    rw [relation, contents_spaced]
    rfl
  have hPattern (v : BoundValue) : (d.patternCondition c v).contents = c.names.map .name := by
    cases d with
    | postgres =>
      by_cases hText : c.type = .text <;> simp [patternCondition, matchForm, hText] <;> rfl
    | mysql | sqlite | sqlServer => rfl
  rw [condition]
  split
  · simp [Condition.names]
  · simp [Condition.names]
  · simp [Condition.names, List.flatMap_map]
  · exact hPattern _
  · exact hPattern _
  · exact hRelation _
  · exact hRelation _

@[simp] theorem contents_filter (f : Filter) :
    (d.filter f).contents = (f.conditions.flatMap Condition.names).map .name := by
  induction f with
  | condition c => simp [filter, contents_condition, Filter.conditions]
  | combined left op right ihLeft ihRight => simp [filter, Filter.conditions, ihLeft, ihRight]
  | group inner ih => simp [filter, Filter.conditions, ih]

theorem contents_selectItem (item : SelectItem) :
    (d.selectItem item).contents = (item.names d).map .name := by
  cases item with
  | wildcard aliasName => rfl
  | column aliasName column label type =>
    by_cases hCast : d = .postgres ∧ type = .decimal
    · simp only [selectItem, castBack?, SelectItem.names, if_pos hCast]
      rfl
    · simp only [selectItem, castBack?, SelectItem.names, if_neg hCast]
      cases label with
      | none => rfl
      | some label => rfl

@[simp] theorem contents_selectItems (items : List SelectItem) :
    (d.selectItems items).contents = (items.flatMap (SelectItem.names d)).map .name := by
  simp [selectItems, List.flatMap_map, List.map_flatMap, contents_selectItem]

@[simp] theorem contents_columns (cs : List Column) :
    (d.columns cs).contents = (cs.flatMap (Column.readNames d)).map .name := by
  have hColumn (c : Column) :
      Draft.contents (.name c.name :: d.readAs c.type c.name) = (c.readNames d).map .name := by
    by_cases hCast : d = .postgres ∧ c.type = .decimal
    · simp only [readAs, castBack?, Column.readNames, if_pos hCast]
      rfl
    · simp only [readAs, castBack?, Column.readNames, if_neg hCast]
      rfl
  simp [columns, List.flatMap_map, List.map_flatMap, hColumn]

@[simp] theorem contents_sortKeys (ks : List SortKey) :
    (sortKeys ks).contents = (ks.flatMap SortKey.names).map .name := by
  simp [sortKeys, sortKey, List.flatMap_map, List.map_flatMap, SortKey.names]

@[simp] theorem contents_joins (js : List Join) :
    (d.joins js).contents = (js.flatMap (Join.names d)).map .name := by
  induction js with
  | nil => rfl
  | cons j js ih =>
    have hJoin : (d.join j).contents = (j.names d).map .name := by
      change (spaced _).contents = _
      simp [Join.names]
    have hSplit : d.joins (j :: js) = d.join j ++ d.joins js := rfl
    rw [hSplit, contents_append, hJoin, ih, List.flatMap_cons, List.map_append]

@[simp] theorem contents_paging (p : Paging) (ordered : Bool) :
    (d.paging p ordered).contents = p.decimals d := by
  rw [paging, Paging.decimals]
  split
  · split <;> rfl
  · rfl

theorem contents_clauses (cs : List Column) :
    (d.rowReturn cs).clauses.1.flatMap contents = (d.returnedNames cs).1.map .name ∧
      (d.rowReturn cs).clauses.2.flatMap contents = (d.returnedNames cs).2.map .name := by
  cases d with
  | postgres | sqlite => simp [rowReturn, RowReturn.clauses, returnedNames]
  | mysql => simp [rowReturn, RowReturn.clauses, returnedNames]
  | sqlServer =>
    have hInserted (c : Column) :
        Draft.contents [.keyword .INSERTED, .mark .dot, .name c.name] = [.name c.name] := rfl
    simp [rowReturn, RowReturn.clauses, returnedNames, List.flatMap_map, hInserted,
      ← List.map_eq_flatMap, Function.comp_def]

end Dialect

open Draft

namespace Statement

variable {d : Dialect}

theorem legible_list (d : Dialect) (e : Entity) (q : QueryPlan) :
    Legible d (list d e q).select.draft ∧ Legible d (list d e q).count.draft := by
  have hCount : Legible d (.keyword .COUNT :: enclosed [.mark .star]) := by
    simp [enclosed, legible_cons_cons, Apart, Part.isSeparator, Part.isReadable]
  have hSource : ∀ a ∈ [[.keyword .FROM], e.source d q.joins] ++ predicate d q.filter,
      Legible d a := by
    simp only [List.forall_mem_append]
    exact ⟨by simp [Part.isReadable, e.legible_source], legible_predicate q.filter⟩
  have hPage : ∀ a ∈ orderClause (e.ordering q.sort) ++
      [d.paging q.paging !(e.ordering q.sort).isEmpty], Legible d a := by
    simp only [List.forall_mem_append]
    exact ⟨fun a ha => (orderClause_forall _ a ha).1, by simp [Dialect.legible_paging]⟩
  constructor
  · refine .spaced ?_
    rw [List.forall_mem_append, List.forall_mem_append]
    exact ⟨⟨by simp [Part.isReadable, e.legible_projection], hSource⟩, hPage⟩
  · refine .spaced ?_
    rw [List.forall_mem_append]
    exact ⟨by simp [Part.isReadable, hCount], hSource⟩

theorem legible_rowRead (e : Entity) (q : QueryPlan) (key : Column) (v : BoundValue) :
    Legible d (rowRead d e q key v).draft := by
  have hEquals : Legible d
      (equals (columnOf e.aliasName key.name) [.value key.name v (some key.type)]) :=
    (legible_columnOf ..).equals (legible_singleton.mpr rfl)
  exact .spaced
    (by simp [Entity.legible_projection, Entity.legible_source, hEquals, Part.isReadable])

end Statement

namespace Mutation

variable {d : Dialect}

theorem legible_rowByKey {key : Draft} (e : Entity) (column : Column) (h : Legible d key) :
    Legible d (rowByKey d e column key).draft := by
  have hEquals := legible_comparison column h
  exact .spaced (by simp [Dialect.legible_columns, Entity.legible_table, hEquals, Part.isReadable])

theorem legible_insertedKey (column : Column) (assignments : List Assignment) :
    Legible d (insertedKey d column assignments) := by
  rw [insertedKey]
  split
  · exact legible_keyPlaceholder column _
  · cases d with
    | mysql =>
      simp [Dialect.lastKey?, legible_cons_cons, Apart, Part.isSeparator, Part.isReadable]
    | postgres | sqlite | sqlServer => exact legible_singleton.mpr rfl

theorem legible_insertedValues (d : Dialect) (assignments : List Assignment) :
    ∀ a ∈ (insertedValues d assignments).1 ++ (insertedValues d assignments).2, Legible d a := by
  have hEmpty : Legible d (enclosed []) := legible_nil.enclosed
  have hNames : Legible d (listed (assignments.map Assignment.columnName)) :=
    .listed (List.forall_mem_map.mpr fun _ _ => legible_singleton.mpr rfl)
  have hValues : Legible d (listed (assignments.map Assignment.placeholder)) :=
    .listed (List.forall_mem_map.mpr fun _ _ => legible_singleton.mpr rfl)
  have hNoValues : Legible d (spaced [[.keyword .VALUES], enclosed []]) :=
    .spaced (by simp [Part.isReadable, hEmpty])
  rw [insertedValues]
  split
  · split
    · simp [hEmpty, hNoValues]
    · simp [legible_words]
  · simp [Part.isReadable, hNames.enclosed, hValues.enclosed]

theorem legible_insertion (d : Dialect) (e : Entity) (assignments : List Assignment) :
    Legible d (insertion d e assignments).statement.draft := by
  rw [insertion_statement]
  exact Statement.legible_insertion (Dialect.naming_table e.schema e.name)
    (Dialect.naming_clauses d e.columns) (legible_insertedValues d assignments)

theorem legible_rowDeletion (e : Entity) (key : Column) (v : BoundValue) :
    Legible d (rowDeletion d e key v).draft := by
  have hEquals : Legible d (equals [.name key.name] (keyPlaceholder key v)) :=
    legible_comparison key (legible_keyPlaceholder key v)
  exact .spaced (by simp [legible_words, Entity.legible_table, hEquals, Part.isReadable])

end Mutation

theorem AuditTable.legible_insert (t : AuditTable) (d : Dialect) (event : AuditEvent) :
    Legible d (t.insert d event).draft := by
  refine .spaced ?_
  simp only [List.forall_mem_cons]
  -- The columns are names, and the values are placeholders.
  exact ⟨legible_words _, Dialect.legible_table .., Legible.enclosed (.listed
      (List.forall_mem_map.mpr fun _ _ => legible_singleton.mpr rfl)), legible_singleton.mpr rfl,
    Legible.enclosed (.listed (List.forall_mem_map.mpr fun _ _ => legible_singleton.mpr rfl)),
    List.forall_mem_nil _⟩

variable {d : Dialect} {e : Entity} {id : String}

def Entity.sourceNames (e : Entity) (d : Dialect) (js : List Join) : List String :=
  d.tableNames e.schema e.name ++ e.aliasName :: js.flatMap (Join.names d)

def Entity.rowNames (e : Entity) (d : Dialect) (key : Column) : List String :=
  e.columns.flatMap (Column.readNames d) ++ d.tableNames e.schema e.name ++ [key.name]

def QueryPlan.filterNames (q : QueryPlan) : List String :=
  q.filter.toList.flatMap fun f => f.conditions.flatMap Condition.names

namespace Entity

theorem contents_source (d : Dialect) (e : Entity) (js : List Join) :
    (e.source d js).contents = (e.sourceNames d js).map .name := by
  simp [source, sourceNames, table]

theorem contents_projection (d : Dialect) (e : Entity) (items : List SelectItem) :
    (e.projection d items).contents =
      ((e.selected d items).flatMap (SelectItem.names d)).map .name := by
  rw [projection, Dialect.contents_selectItems]
  rfl

end Entity

namespace Statement

theorem contents_predicate (d : Dialect) (q : QueryPlan) :
    (predicate d q.filter).flatMap contents = q.filterNames.map .name := by
  rw [predicate, QueryPlan.filterNames]
  cases q.filter <;> simp

theorem contents_orderClause (keys : List SortKey) :
    (orderClause keys).flatMap contents = (keys.flatMap SortKey.names).map .name := by
  rw [orderClause]
  cases keys <;> simp

theorem consists_list (d : Dialect) (e : Entity) (q : QueryPlan) :
    (list d e q).select.Consists
        (((e.selected d q.fields).flatMap (SelectItem.names d) ++ e.sourceNames d q.joins ++
          q.filterNames ++ (e.ordering q.sort).flatMap SortKey.names).map .name ++
            q.paging.decimals d) ∧
      (list d e q).count.Consists ((e.sourceNames d q.joins ++ q.filterNames).map .name) := by
  have hCount : Draft.contents (.keyword .COUNT :: enclosed [.mark .star]) = [] := rfl
  constructor
  · refine .of_draft (legible_list d e q).1 ?_
    rw [list, contents_spaced]
    simp only [List.flatMap_append, contents_predicate, contents_orderClause]
    simp [Entity.contents_projection, Entity.contents_source]
  · refine .of_draft (legible_list d e q).2 ?_
    rw [list, contents_spaced]
    simp only [List.flatMap_append, contents_predicate]
    simp [hCount, Entity.contents_source]

theorem read_consists {q : QueryPlan} {s : Statement} (h : read d e q id = .ok s) :
    ∃ key, e.primaryKey? = some key ∧
      s.Consists (((e.selected d q.fields).flatMap (SelectItem.names d) ++
        e.sourceNames d q.joins ++ [e.aliasName, key.name]).map .name) := by
  obtain ⟨key, v, hKey, -, rfl⟩ := read_eq_ok h
  refine ⟨key, hKey, .of_draft (legible_rowRead e q key v) ?_⟩
  rw [rowRead, contents_spaced]
  simp [Entity.contents_projection, Entity.contents_source]

end Statement

namespace Mutation

theorem consists_rowByKey {key : Draft} (column : Column) (h : Legible d key)
    (hContents : key.contents = []) :
    (rowByKey d e column key).Consists ((e.rowNames d column).map .name) := by
  refine .of_draft (legible_rowByKey e column h) ?_
  rw [rowByKey, contents_spaced]
  simp [Entity.rowNames, Entity.table, hContents]

theorem consists_rowByKey_value (column : Column) (v : BoundValue) :
    (rowByKey d e column (keyPlaceholder column v)).Consists ((e.rowNames d column).map .name) :=
  consists_rowByKey column (legible_keyPlaceholder column v) rfl

theorem contents_insertedKey (column : Column) (assignments : List Assignment) :
    (insertedKey d column assignments).contents = [] := by
  rw [insertedKey]
  split
  · rfl
  · cases d <;> rfl

theorem contents_insertedValues (d : Dialect) (assignments : List Assignment) :
    (insertedValues d assignments).1.flatMap contents =
        (assignments.map fun a => a.column.name).map .name ∧
      (insertedValues d assignments).2.flatMap contents = [] := by
  have hName (a : Assignment) : a.columnName.contents = [.name a.column.name] := rfl
  have hValue (a : Assignment) : a.placeholder.contents = [] := rfl
  cases assignments with
  | nil => cases d <;> exact ⟨rfl, rfl⟩
  | cons a as =>
    simp [insertedValues, List.flatMap_map, hName, hValue, ← List.map_eq_flatMap,
      Function.comp_def]

theorem consists_insertion (d : Dialect) (e : Entity) (assignments : List Assignment) :
    (insertion d e assignments).statement.Consists
      ((d.tableNames e.schema e.name ++ assignments.map (fun a => a.column.name) ++
        (d.returnedNames e.columns).1 ++ (d.returnedNames e.columns).2).map .name) := by
  obtain ⟨hNames, hNone⟩ := contents_insertedValues d assignments
  obtain ⟨hOutput, hSuffix⟩ := Dialect.contents_clauses (d := d) e.columns
  have hLegible := legible_insertion d e assignments
  rw [insertion_statement] at hLegible ⊢
  refine .of_draft hLegible ?_
  simp [Statement.insertionPieces, hNames, hNone, hOutput, hSuffix, Entity.table]

theorem consists_rowUpdate (d : Dialect) (e : Entity) (key : Column) (v : BoundValue)
    (assignments : List Assignment) :
    (rowUpdate d e key v assignments).statement.Consists
      ((d.tableNames e.schema e.name ++ assignments.map (fun a => a.column.name) ++
        (d.returnedNames e.columns).1 ++ key.name :: (d.returnedNames e.columns).2).map .name) := by
  have hEquation (a : Assignment) : a.equation.contents = [.name a.column.name] := rfl
  have hKey : (keyPlaceholder key v).contents = [] := rfl
  obtain ⟨hOutput, hSuffix⟩ := Dialect.contents_clauses (d := d) e.columns
  have hLegible := legible_rowUpdate d e key v assignments
  rw [rowUpdate_statement] at hLegible ⊢
  refine .of_draft hLegible ?_
  simp [hOutput, hSuffix, hKey, hEquation, Entity.table, List.flatMap_map, ← List.map_eq_flatMap,
    Function.comp_def]

theorem insert_consists {body : List (String × Json)} {m : Mutation} (h : insert d e body = .ok m) :
    m.statement.Consists
        ((d.tableNames e.schema e.name ++
          (body.filterMap fun member => e.assigned? true member.1).map Column.name ++
            (d.returnedNames e.columns).1 ++ (d.returnedNames e.columns).2).map .name) ∧
      ∀ s ∈ m.selectBack, ∃ key, e.primaryKey? = some key ∧
        s.Consists ((e.rowNames d key).map .name) := by
  obtain ⟨assignments, hMembers, rfl⟩ := insert_eq_ok h
  constructor
  · rw [← Assignment.map_column_eq_filterMap hMembers, List.map_map]
    exact consists_insertion d e assignments
  · intro s hs
    rw [selectBack_insertion, Option.mem_def, Option.ite_none_right_eq_some] at hs
    obtain ⟨key, hKey, rfl⟩ := Option.map_eq_some_iff.mp hs.2
    exact ⟨key, hKey, consists_rowByKey key (legible_insertedKey key assignments)
      (contents_insertedKey key assignments)⟩

theorem update_consists {members : List (String × Json)} {m : Mutation}
    (h : update d e id members = .ok m) :
    ∃ key, e.primaryKey? = some key ∧
      (let assigned := members.filterMap fun member => e.assigned? false member.1
       m.statement.Consists
        ((if assigned.isEmpty then e.rowNames d key
          else d.tableNames e.schema e.name ++ assigned.map Column.name ++
            (d.returnedNames e.columns).1 ++ key.name :: (d.returnedNames e.columns).2).map
              .name)) ∧
      ∀ s ∈ m.selectBack, s.Consists ((e.rowNames d key).map .name) := by
  obtain ⟨key, v, assignments, hKey, -, hMembers, rfl⟩ := update_eq_ok h
  refine ⟨key, hKey, ?_⟩
  rw [← Assignment.map_column_eq_filterMap hMembers]
  cases assignments with
  | nil => exact ⟨consists_rowByKey_value key v, nofun⟩
  | cons a as =>
    constructor
    · change (rowUpdate d e key v (a :: as)).statement.Consists _
      rw [List.map_map]
      exact consists_rowUpdate d e key v (a :: as)
    · intro s hs
      change s ∈ (rowUpdate d e key v (a :: as)).selectBack at hs
      rw [selectBack_rowUpdate, Option.mem_def, Option.ite_none_right_eq_some] at hs
      exact Option.some.inj hs.2 ▸ consists_rowByKey_value key v

theorem delete_consists {s : Statement} (h : delete d e id = .ok s) :
    ∃ key, e.primaryKey? = some key ∧
      s.Consists ((d.tableNames e.schema e.name ++ [key.name]).map .name) := by
  obtain ⟨key, v, hKey, -, rfl⟩ := delete_eq_ok h
  have hValue : (keyPlaceholder key v).contents = [] := rfl
  refine ⟨key, hKey, .of_draft (legible_rowDeletion e key v) ?_⟩
  rw [rowDeletion, contents_spaced]
  simp [Entity.table, hValue]

end Mutation

theorem AuditTable.consists_insert (t : AuditTable) (d : Dialect) (event : AuditEvent) :
    (t.insert d event).Consists
      ((d.tableNames t.schema t.table ++ (record event).map Prod.fst).map .name) := by
  refine .of_draft (t.legible_insert d event) ?_
  rw [insert, contents_spaced]
  simp [List.flatMap_map, ← List.map_eq_flatMap, Function.comp_def]

/-- A name ends with its quotes, in whatever text it stands. Each statement consists of the names
that its request is about; only a page has decimals. -/
theorem names_stay_in_quotes (d : Dialect) :
    (∀ s : String, ∃ body, d.quote s = d.openQuote :: body ∧
      ∀ rest : List Char, rest.head? ≠ some d.closeQuote →
        Dialect.delimited d.closeQuote none (body ++ rest) = (s.toList, rest) ∧
          d.tokens (d.quote s ++ rest) = .name s.toList :: d.tokens rest) ∧
    (∀ e : Entity,
      (∀ q : QueryPlan,
        (Statement.list d e q).select.Consists
          (((e.selected d q.fields).flatMap (SelectItem.names d) ++ e.sourceNames d q.joins ++
            q.filterNames ++ (e.ordering q.sort).flatMap SortKey.names).map .name ++
              q.paging.decimals d) ∧
        (Statement.list d e q).count.Consists
          ((e.sourceNames d q.joins ++ q.filterNames).map .name)) ∧
      (∀ q id s, Statement.read d e q id = .ok s → ∃ key, e.primaryKey? = some key ∧
        s.Consists (((e.selected d q.fields).flatMap (SelectItem.names d) ++
          e.sourceNames d q.joins ++ [e.aliasName, key.name]).map .name)) ∧
      (∀ body m, Mutation.insert d e body = .ok m →
        m.statement.Consists
          ((d.tableNames e.schema e.name ++
            (body.filterMap fun member => e.assigned? true member.1).map Column.name ++
              (d.returnedNames e.columns).1 ++ (d.returnedNames e.columns).2).map .name) ∧
        ∀ s ∈ m.selectBack, ∃ key, e.primaryKey? = some key ∧
          s.Consists ((e.rowNames d key).map .name)) ∧
      (∀ id members m, Mutation.update d e id members = .ok m →
        ∃ key, e.primaryKey? = some key ∧
          (let assigned := members.filterMap fun member => e.assigned? false member.1
           m.statement.Consists
            ((if assigned.isEmpty then e.rowNames d key
              else d.tableNames e.schema e.name ++ assigned.map Column.name ++
                (d.returnedNames e.columns).1 ++ key.name :: (d.returnedNames e.columns).2).map
                  .name)) ∧
          ∀ s ∈ m.selectBack, s.Consists ((e.rowNames d key).map .name)) ∧
      ∀ id s, Mutation.delete d e id = .ok s → ∃ key, e.primaryKey? = some key ∧
        s.Consists ((d.tableNames e.schema e.name ++ [key.name]).map .name)) ∧
    ∀ (t : AuditTable) (event : AuditEvent), (t.insert d event).Consists
      ((d.tableNames t.schema t.table ++
        ["event_date", "http_method", "domain", "entity", "id", "status", "patch"]).map
          .name) := by
  refine ⟨fun s => ⟨_, rfl, fun rest h => ⟨?_, Dialect.tokens_quote h⟩⟩,
    fun e => ⟨?_, ?_, ?_, ?_, ?_⟩, ?_⟩
  · have hName := Dialect.delimited_double s.toList h
    rwa [← List.singleton_append, ← List.append_assoc] at hName
  · exact fun q => Statement.consists_list d e q
  · exact fun q id s h => Statement.read_consists h
  · exact fun body m h => Mutation.insert_consists h
  · exact fun id members m h => Mutation.update_consists h
  · exact fun id s h => Mutation.delete_consists h
  · exact fun t event => AuditTable.consists_insert t d event

/-- A table whose names hold quotes, dots, blanks and what placeholders begin with. -/
def hostileEntity : Entity where
  name := "a\"] b"
  schema := "\x60."
  readOnly := false
  columns :=
    [{ name := "]?", type := .text, primaryKey := true }, { name := "\"$1", type := .decimal },
      { name := "@n", type := .text }]

/-- Its rows are read, inserted, changed and deleted. -/
theorem hostileEntity_stays_in_quotes :
    (∃ body, Dialect.sqlServer.quote "]?" = '[' :: body ∧
      Dialect.delimited ']' none (body ++ ['.', ']']) = ([']', '?'], ['.', ']'])) ∧
    (∃ s, Statement.read .postgres hostileEntity
        ⟨none, [], [.wildcard "t_a\"] b"], [], ⟨1, 0⟩⟩ "x" = .ok s ∧
      s.Consists (["t_a\"] b", "]?", "t_a\"] b", "\"$1", "\"$1", "t_a\"] b", "@n", "\x60.",
        "a\"] b", "t_a\"] b", "t_a\"] b", "]?"].map .name)) ∧
    (∃ m, Mutation.insert .mysql hostileEntity [("]?", .text "x")] = .ok m ∧
      m.statement.Consists (["\x60.", "a\"] b", "]?"].map .name) ∧
      ∃ s ∈ m.selectBack, s.Consists (["]?", "\"$1", "@n", "\x60.", "a\"] b", "]?"].map .name)) ∧
    (∃ m, Mutation.update .sqlServer hostileEntity "x" [("@N", .text "y")] = .ok m ∧
      m.statement.Consists
        (["\x60.", "a\"] b", "@n", "]?", "\"$1", "@n", "]?"].map .name)) ∧
    ∃ s, Mutation.delete .sqlite hostileEntity "x" = .ok s ∧
      s.Consists (["a\"] b", "]?"].map .name) := by
  refine ⟨?_, ⟨_, rfl, ?_⟩, ⟨_, rfl, ?_⟩, ⟨_, rfl, ?_⟩, _, rfl, ?_⟩
  · obtain ⟨body, hBody, hRead⟩ := (names_stay_in_quotes .sqlServer).1 "]?"
    exact ⟨body, hBody, (hRead ['.', ']'] (by decide)).1⟩
  · obtain ⟨key, hKey, hConsists⟩ :=
      ((names_stay_in_quotes .postgres).2.1 hostileEntity).2.1 _ "x" _ rfl
    cases hKey
    exact hConsists
  · obtain ⟨hConsists, hBack⟩ :=
      ((names_stay_in_quotes .mysql).2.1 hostileEntity).2.2.1 [("]?", .text "x")] _ rfl
    obtain ⟨key, hKey, hRow⟩ := hBack _ rfl
    cases hKey
    exact ⟨hConsists, _, rfl, hRow⟩
  · obtain ⟨key, hKey, hConsists, -⟩ :=
      ((names_stay_in_quotes .sqlServer).2.1 hostileEntity).2.2.2.1 "x" [("@N", .text "y")] _ rfl
    cases hKey
    exact hConsists
  · obtain ⟨key, hKey, hConsists⟩ :=
      ((names_stay_in_quotes .sqlite).2.1 hostileEntity).2.2.2.2 "x" _ rfl
    cases hKey
    exact hConsists

end TableGateway
