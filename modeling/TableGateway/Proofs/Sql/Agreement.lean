import TableGateway.Proofs.Sql.Erasure
import TableGateway.Proofs.Sql.Gist

/-!
# Agreement of the dialects

For one request the statements of all engines have the same gist and bind the same values under the
same names. Only the pattern of a search is escaped as each engine wants it. Where one engine has no
statement, none has, for the same reason.
-/

namespace TableGateway

open Draft

/-- A literal of a condition, which is bound as it is or made a pattern. -/
inductive Literal
  | plain (v : BoundValue)
  | pattern (op : Comparison) (v : BoundValue)

def Literal.value (d : Dialect) : Literal → BoundValue
  | .plain v => v
  | .pattern op v => d.pattern op v

namespace Condition

/-- The literals that are bound for a condition, whatever the engine. -/
def bound (c : Condition) : List Literal :=
  match c.operator, c.operand with
  | .eq, .single .null | .ne, .single .null => []
  | .contains, .single v | .startsWith, .single v => [.pattern c.operator v]
  | _, .single v => [.plain v]
  | .within, .list vs => vs.map .plain
  | _, .list vs => [.plain (vs.head?.getD .null)]

def entries (d : Dialect) (c : Condition) : List (String × BoundValue) :=
  c.bound.map fun l => (c.column, l.value d)

end Condition

namespace QueryPlan

def conditions (q : QueryPlan) : List Condition := q.filter.toList.flatMap Filter.conditions

def bound (q : QueryPlan) : List Literal := q.conditions.flatMap Condition.bound

def entries (d : Dialect) (q : QueryPlan) : List (String × BoundValue) :=
  q.conditions.flatMap (Condition.entries d)

theorem map_fst_entries (d d' : Dialect) (q : QueryPlan) :
    (q.entries d).map Prod.fst = (q.entries d').map Prod.fst := by
  simp [entries, Condition.entries, List.map_flatMap, Function.comp_def]

theorem map_snd_entries (d : Dialect) (q : QueryPlan) :
    (q.entries d).map Prod.snd = q.bound.map (Literal.value d) := by
  simp [entries, bound, Condition.entries, List.map_flatMap, Function.comp_def]

end QueryPlan

namespace Parameters

/-- The names of parameters depend on the names that their values ask for. -/
theorem names_pushAll_congr {ps qs : Parameters} {as bs : List (String × BoundValue)}
    (h : ps.names = qs.names) (hAsked : as.map Prod.fst = bs.map Prod.fst) :
    (ps.pushAll as).names = (qs.pushAll bs).names := by
  induction as generalizing ps qs bs with
  | nil =>
    rw [List.map_nil, eq_comm, List.map_eq_nil_iff] at hAsked
    rwa [hAsked]
  | cons a as ih =>
    cases bs with
    | nil => cases hAsked
    | cons b bs =>
      obtain ⟨hFirst, hRest⟩ := List.cons.inj hAsked
      change ((ps.push a.1 a.2).pushAll as).names = ((qs.push b.1 b.2).pushAll bs).names
      refine ih ?_ hRest
      rw [names_push, names_push, h, hFirst, freshName_congr h]

end Parameters

namespace Draft

variable {a : Draft}

theorem parameters_eq (a : Draft) : a.parameters = Parameters.pushAll {} a.entries :=
  bind_eq_pushAll {} a

theorem Silent.entries_eq (h : Silent a) : a.entries = [] := by
  rw [entries, List.filterMap_eq_nil_iff]
  intro p hp
  have hSilent := h p hp
  cases p with
  | value => cases hSilent
  | keyword | mark | relation | name | number => rfl

@[simp] theorem entries_append (a b : Draft) :
    Draft.entries (a ++ b) = a.entries ++ b.entries :=
  List.filterMap_append

@[simp] theorem entries_spaced (drafts : List Draft) :
    (spaced drafts).entries = drafts.flatMap entries :=
  filterMap_intercalate rfl drafts

@[simp] theorem entries_listed (drafts : List Draft) :
    (listed drafts).entries = drafts.flatMap entries :=
  filterMap_intercalate rfl drafts

@[simp] theorem entries_enclosed (a : Draft) : (enclosed a).entries = a.entries := by
  rw [enclosed, entries_append]
  exact List.append_nil a.entries

@[simp] theorem entries_keyword (k : Keyword) : Draft.entries [.keyword k] = [] := rfl

@[simp] theorem entries_name (s : String) : Draft.entries [.name s] = [] := rfl

@[simp] theorem entries_value (hint : String) (v : BoundValue) (type : Option DataType) :
    Draft.entries [.value hint v type] = [(hint, v)] := rfl

@[simp] theorem entries_columnOf (aliasName column : String) :
    (columnOf aliasName column).entries = [] := rfl

@[simp] theorem entries_words (ks : List Keyword) : (words ks).entries = [] := by
  rw [words, entries_spaced, List.flatMap_map]
  exact List.flatMap_eq_nil_iff.mpr fun _ _ => rfl

@[simp] theorem entries_equals (a b : Draft) : (equals a b).entries = a.entries ++ b.entries := by
  rw [equals, entries_spaced]
  simp [entries]

end Draft

namespace Dialect

variable {d : Dialect}

theorem entries_relation (c : Condition) (v : BoundValue) :
    (relation c v).entries = [(c.column, v)] := by
  rw [relation, entries_spaced]
  rfl

theorem entries_patternCondition (c : Condition) (v : BoundValue) :
    (d.patternCondition c v).entries = [(c.column, d.pattern c.operator v)] := by
  cases d with
  | postgres =>
    by_cases hText : c.type = .text <;> simp only [patternCondition, matchForm, hText] <;> rfl
  | mysql | sqlite | sqlServer => rfl

theorem entries_condition (c : Condition) : (d.condition c).entries = c.entries d := by
  obtain ⟨aliasName, column, type, op, operand⟩ := c
  cases operand with
  | single v =>
    cases op with
    | eq | ne =>
      cases v with
      | null => exact entries_spaced _
      | _ => exact entries_relation _ _
    | contains | startsWith => exact entries_patternCondition _ v
    | gt | ge | lt | le | within => exact entries_relation _ _
  | list vs =>
    cases op with
    | within =>
      rw [condition, entries_spaced]
      simp only [Condition.entries, Condition.bound, List.flatMap_cons, List.flatMap_nil,
        entries_enclosed, entries_listed, List.flatMap_map, List.map_map]
      exact List.append_nil _ |>.trans (List.flatMap_pure_eq_map _ vs)
    | _ => exact entries_relation _ _

theorem entries_filter (f : Filter) :
    (d.filter f).entries = f.conditions.flatMap (Condition.entries d) := by
  induction f with
  | condition c => simp [filter, Filter.conditions, entries_condition]
  | combined left op right ihLeft ihRight => simp [filter, Filter.conditions, ihLeft, ihRight]
  | group inner ih => rw [filter, entries_enclosed, ih, Filter.conditions]

end Dialect

/-- Both succeed with related results, or both fail for the same reason. -/
inductive Outcome.Agree {ε α β : Type} (R : α → β → Prop) : Except ε α → Except ε β → Prop
  | ok {a : α} {b : β} (h : R a b) : Agree R (.ok a) (.ok b)
  | error (e : ε) : Agree R (.error e) (.error e)

theorem Outcome.Agree.bind {ε α β γ : Type} {R : α → β → Prop} (x : Except ε γ)
    {f : γ → Except ε α} {g : γ → Except ε β} (h : ∀ c, Agree R (f c) (g c)) :
    Agree R (x >>= f) (x >>= g) := by
  cases x with
  | ok c => exact h c
  | error e => exact .error e

/-- Statements that say the same with the same parameters. -/
structure Statement.SaysAs (s s' : Statement) : Prop where
  gist : s.gist = s'.gist
  parameters : s.parameters = s'.parameters

/-- Statements that say the same, of which each binds these literals as its engine wants them. -/
structure Statement.SaysAsOf (bound : List Literal) (s s' : Statement) : Prop where
  gist : s.gist = s'.gist
  names : s.parameters.names = s'.parameters.names
  values : s.parameters.values = bound.map (Literal.value s.dialect)
  values' : s'.parameters.values = bound.map (Literal.value s'.dialect)

theorem Statement.gist_eq {s : Statement} (h : Legible s.dialect s.draft) :
    s.gist = Piece.gist true s.draft.pieces := by
  rw [gist, tokens_eq h, piece?_tokens]

variable {d d' : Dialect} {e : Entity}

namespace Statement

theorem entries_predicate (d : Dialect) (q : QueryPlan) :
    (predicate d q.filter).flatMap entries = q.entries d := by
  rw [predicate, QueryPlan.entries, QueryPlan.conditions]
  cases q.filter <;> simp [Dialect.entries_filter]

theorem entries_source (d : Dialect) (e : Entity) (js : List Join) :
    (e.source d js).entries = [] :=
  (e.silent_source d js).entries_eq

theorem entries_projection (d : Dialect) (e : Entity) (items : List SelectItem) :
    (e.projection d items).entries = [] :=
  (e.silent_projection d items).entries_eq

theorem entries_orderClause (keys : List SortKey) : (orderClause keys).flatMap entries = [] :=
  List.flatMap_eq_nil_iff.mpr fun a ha =>
    (orderClause_forall (d := .postgres) keys a ha).2.entries_eq

theorem entries_list (d : Dialect) (e : Entity) (q : QueryPlan) :
    (list d e q).select.draft.entries = q.entries d ∧
      (list d e q).count.draft.entries = q.entries d := by
  have hCount : Draft.entries (.keyword .COUNT :: enclosed [.mark .star]) = [] := rfl
  have hPaging := (Dialect.silent_paging (d := d) q.paging !(e.ordering q.sort).isEmpty).entries_eq
  constructor
  · rw [list, entries_spaced]
    simp only [List.flatMap_append, entries_predicate, entries_orderClause]
    simp [entries_source, entries_projection, hPaging]
  · rw [list, entries_spaced]
    simp only [List.flatMap_append, entries_predicate]
    simp [entries_source, hCount]

theorem agree_predicate (filter : Option Filter) :
    Draft.Agree fun d => spaced (predicate d filter) := by
  cases filter with
  | none => exact plain_nil.agree
  | some f =>
    obtain ⟨out, hFilter⟩ := Dialect.agree_filter f
    refine ⟨.predicate :: out, fun d rest => ?_⟩
    have hPieces : (spaced (predicate d (some f))).pieces = .predicate :: (d.filter f).pieces := by
      simp only [predicate, Option.toList_some, List.map_cons, List.map_nil, pieces_spaced,
        List.flatMap_cons, List.flatMap_nil, List.append_nil]
      rfl
    rw [hPieces]
    exact congrArg (.predicate :: ·) (hFilter d rest)

theorem agree_orderClause (keys : List SortKey) :
    Draft.Agree fun _ => spaced (orderClause keys) := by
  cases keys with
  | nil => exact plain_nil.agree
  | cons k ks =>
    refine ⟨.order :: (Dialect.sortKeys (k :: ks)).pieces, fun _ rest => ?_⟩
    -- What comes next is a name, so this is no order that orders nothing.
    obtain ⟨more, hMore⟩ : ∃ more, (Dialect.sortKeys (k :: ks)).pieces =
        .name k.aliasName :: more := by
      cases ks with
      | nil => exact ⟨_, rfl⟩
      | cons => exact ⟨_, rfl⟩
    have hKeys := (Dialect.plain_sortKeys (k :: ks)).gives rest
    have hPieces : (spaced (orderClause (k :: ks))).pieces =
        .order :: (Dialect.sortKeys (k :: ks)).pieces := by
      simp only [orderClause, List.isEmpty_cons, Bool.false_eq_true, if_false, pieces_spaced,
        List.flatMap_cons, List.flatMap_nil, List.append_nil]
      rfl
    rw [hPieces, List.cons_append, List.cons_append, ← hKeys, hMore]
    rfl

/-- All that stands between what is selected and the page. -/
theorem agree_selection (e : Entity) (q : QueryPlan) :
    ∃ out, ∀ (d : Dialect) (selected : Draft), Plain selected → ∀ rest,
      Piece.gist true (Draft.pieces [.keyword .SELECT] ++ (selected.pieces ++
        (Draft.pieces [.keyword .FROM] ++ ((e.source d q.joins).pieces ++
          ((predicate d q.filter).flatMap pieces ++ rest))))) = out ++ Piece.gist true rest := by
  obtain ⟨source, hSource⟩ := e.agree_source q.joins
  obtain ⟨filter, hFilter⟩ := agree_predicate q.filter
  refine ⟨source ++ filter, fun d selected hSelected rest => ?_⟩
  have hPredicate := hFilter d rest
  rw [pieces_spaced] at hPredicate
  refine (hSelected.gist_hidden _).trans ?_
  rw [hSource, hPredicate, List.append_assoc]

theorem gist_list (e : Entity) (q : QueryPlan) :
    ∃ page count, ∀ d, (list d e q).select.gist = page ∧ (list d e q).count.gist = count := by
  obtain ⟨selection, hSelection⟩ := agree_selection e q
  obtain ⟨order, hOrder⟩ := agree_orderClause (e.ordering q.sort)
  refine ⟨selection ++ order, selection, fun d => ⟨?_, ?_⟩⟩
  · have hPage := Dialect.gist_paging (d := d) q.paging !(e.ordering q.sort).isEmpty
    have hKeys := hOrder d (d.paging q.paging !(e.ordering q.sort).isEmpty).pieces
    rw [pieces_spaced, hPage, List.append_nil] at hKeys
    rw [gist_eq (legible_list d e q).1, list, pieces_spaced]
    simp only [List.flatMap_append, List.flatMap_cons, List.flatMap_nil, List.append_nil,
      List.append_assoc]
    rw [hSelection d _ (e.plain_projection d q.fields), hKeys]
  · have hCount : Plain (.keyword .COUNT :: enclosed [.mark .star]) := by
      have hKeyword : (Part.keyword .COUNT).givesPlain = true := rfl
      simp [enclosed, hKeyword]
    rw [gist_eq (legible_list d e q).2, list, pieces_spaced]
    have hSelected := hSelection d _ hCount []
    simp only [List.flatMap_append, List.flatMap_cons, List.flatMap_nil, List.append_nil,
      List.append_assoc] at hSelected ⊢
    exact hSelected.trans (List.append_nil selection)

example (d : Dialect) :
    let notes : Entity := ⟨"notes", "app", false,
      [{ name := "id", type := .integer, primaryKey := true }, { name := "line", type := .text }]⟩
    let search : Condition := ⟨"t_notes", "line", .text, .contains, .single (.text "a")⟩
    Piece.gist true (list d notes
      { filter := some (.condition search), sort := [], fields := [.wildcard "t_notes"],
        joins := [], paging := ⟨25, 0⟩ }).select.draft.pieces =
      [.table "FROM", .name "notes", .word "AS", .name "t_notes",
        .predicate, .name "t_notes", .dot, .name "line", .matches, .slot,
        .order, .name "t_notes", .dot, .name "id", .word "ASC"] := by
  cases d <;> decide

theorem saysAsOf_entries {q : QueryPlan} {s s' : Statement} (hGist : s.gist = s'.gist)
    (hEntries : s.draft.entries = q.entries s.dialect)
    (hEntries' : s'.draft.entries = q.entries s'.dialect) : s.SaysAsOf q.bound s' where
  gist := hGist
  names := by
    rw [parameters, parameters, parameters_eq, parameters_eq, hEntries, hEntries']
    exact Parameters.names_pushAll_congr rfl (q.map_fst_entries _ _)
  values := by
    rw [parameters, parameters_eq, hEntries, Parameters.values_pushAll, q.map_snd_entries]
    rfl
  values' := by
    rw [parameters, parameters_eq, hEntries', Parameters.values_pushAll, q.map_snd_entries]
    rfl

theorem saysAsOf_list (d d' : Dialect) (e : Entity) (q : QueryPlan) :
    (list d e q).select.SaysAsOf q.bound (list d' e q).select ∧
      (list d e q).count.SaysAsOf q.bound (list d' e q).count := by
  obtain ⟨page, count, hGist⟩ := gist_list e q
  exact ⟨saysAsOf_entries ((hGist d).1.trans (hGist d').1.symm) (entries_list d e q).1
      (entries_list d' e q).1,
    saysAsOf_entries ((hGist d).2.trans (hGist d').2.symm) (entries_list d e q).2
      (entries_list d' e q).2⟩

theorem saysAs_of_eq {s s' : Statement} {out : List Piece} {entries : List (String × BoundValue)}
    (hLegible : Legible s.dialect s.draft) (hLegible' : Legible s'.dialect s'.draft)
    (hGist : Piece.gist true s.draft.pieces = out) (hGist' : Piece.gist true s'.draft.pieces = out)
    (hEntries : s.draft.entries = entries) (hEntries' : s'.draft.entries = entries) :
    s.SaysAs s' where
  gist := by rw [gist_eq hLegible, gist_eq hLegible', hGist, hGist']
  parameters := by
    rw [parameters, parameters, parameters_eq, parameters_eq, hEntries, hEntries']

theorem saysAs_rowRead (d d' : Dialect) (e : Entity) (q : QueryPlan) (key : Column)
    (v : BoundValue) : (rowRead d e q key v).SaysAs (rowRead d' e q key v) := by
  obtain ⟨source, hSource⟩ := e.agree_source q.joins
  have hKey := ((plain_columnOf e.aliasName key.name).equals
    (b := [.value key.name v (some key.type)]) (by simp)).gist_eq
  have hGist (d : Dialect) : Piece.gist true (rowRead d e q key v).draft.pieces =
      source ++ .predicate ::
        (equals (columnOf e.aliasName key.name) [.value key.name v (some key.type)]).pieces := by
    rw [rowRead, pieces_spaced]
    simp only [List.flatMap_cons, List.flatMap_nil, List.append_nil]
    refine ((e.plain_projection d q.fields).gist_hidden _).trans ?_
    rw [hSource]
    exact congrArg (source ++ .predicate :: ·) hKey
  have hEntries (d : Dialect) : (rowRead d e q key v).draft.entries = [(key.name, v)] := by
    rw [rowRead, entries_spaced]
    simp [entries_projection, entries_source]
  exact saysAs_of_eq (legible_rowRead e q key v) (legible_rowRead e q key v) (hGist d) (hGist d')
    (hEntries d) (hEntries d')

end Statement

namespace Mutation

theorem entries_table (d : Dialect) (e : Entity) : (e.table d).entries = [] :=
  (e.silent_table d).entries_eq

theorem entries_clauses (d : Dialect) (cs : List Column) :
    (d.rowReturn cs).clauses.1.flatMap entries = [] ∧
      (d.rowReturn cs).clauses.2.flatMap entries = [] := by
  have hClauses := Dialect.naming_clauses d cs
  rw [List.forall_mem_append] at hClauses
  exact ⟨List.flatMap_eq_nil_iff.mpr fun a ha => (hClauses.1 a ha).silent.entries_eq,
    List.flatMap_eq_nil_iff.mpr fun a ha => (hClauses.2 a ha).silent.entries_eq⟩

theorem plain_comparison (column : Column) (v : BoundValue) :
    Plain (equals [.name column.name] (keyPlaceholder column v)) :=
  Plain.equals (by simp) (by simp [keyPlaceholder])

theorem gist_rowByKey (d : Dialect) (e : Entity) (key : Column) (v : BoundValue) :
    Piece.gist true (rowByKey d e key (keyPlaceholder key v)).draft.pieces =
      .table "FROM" :: .name e.name :: .predicate ::
        (equals [.name key.name] (keyPlaceholder key v)).pieces := by
  rw [rowByKey, pieces_spaced]
  simp only [List.flatMap_cons, List.flatMap_nil, List.append_nil]
  refine ((Dialect.plain_columns e.columns).gist_hidden _).trans ?_
  refine (Dialect.gist_table "FROM" _ e.schema e.name (p := .predicate) (by decide) _).trans ?_
  exact congrArg (.table "FROM" :: .name e.name :: .predicate :: ·)
    (plain_comparison key v).gist_eq

theorem saysAs_rowByKey (d d' : Dialect) (e : Entity) (key : Column) (v : BoundValue) :
    (rowByKey d e key (keyPlaceholder key v)).SaysAs
      (rowByKey d' e key (keyPlaceholder key v)) := by
  have hEntries (d : Dialect) :
      (rowByKey d e key (keyPlaceholder key v)).draft.entries = [(key.name, v)] := by
    rw [rowByKey, entries_spaced]
    simp [(Dialect.silent_columns (d := d) e.columns).entries_eq, entries_table, keyPlaceholder]
  exact Statement.saysAs_of_eq (legible_rowByKey e key (legible_keyPlaceholder key v))
    (legible_rowByKey e key (legible_keyPlaceholder key v)) (gist_rowByKey d e key v)
    (gist_rowByKey d' e key v) (hEntries d) (hEntries d')

theorem saysAs_rowDeletion (d d' : Dialect) (e : Entity) (key : Column) (v : BoundValue) :
    (rowDeletion d e key v).SaysAs (rowDeletion d' e key v) := by
  have hGist (d : Dialect) : Piece.gist true (rowDeletion d e key v).draft.pieces =
      .word "DELETE" :: .table "FROM" :: .name e.name :: .predicate ::
        (equals [.name key.name] (keyPlaceholder key v)).pieces := by
    rw [rowDeletion, pieces_spaced]
    simp only [List.flatMap_cons, List.flatMap_nil, List.append_nil]
    refine (congrArg (Piece.word "DELETE" :: ·)
      (Dialect.gist_table "FROM" _ e.schema e.name (p := .predicate) (by decide) _)).trans ?_
    exact congrArg (.word "DELETE" :: .table "FROM" :: .name e.name :: .predicate :: ·)
      (plain_comparison key v).gist_eq
  have hEntries (d : Dialect) : (rowDeletion d e key v).draft.entries = [(key.name, v)] := by
    rw [rowDeletion, entries_spaced]
    simp [entries_table, keyPlaceholder]
  exact Statement.saysAs_of_eq (legible_rowDeletion e key v) (legible_rowDeletion e key v) (hGist d)
    (hGist d') (hEntries d) (hEntries d')

theorem pieces_insertion (d : Dialect) (e : Entity) (assignments : List Assignment) :
    (insertion d e assignments).statement.draft.pieces =
      .word "INSERT" :: .into :: (d.table e.schema e.name).pieces ++
        ((insertedValues d assignments).1.flatMap pieces ++
          ((d.rowReturn e.columns).clauses.1.flatMap pieces ++
            ((insertedValues d assignments).2.flatMap pieces ++
              (d.rowReturn e.columns).clauses.2.flatMap pieces))) := by
  rw [insertion_statement, pieces_spaced]
  simp only [Statement.insertionPieces, List.flatMap_cons, List.flatMap_append, List.append_assoc]
  rfl

/-- However an insertion without columns is spelled, only its table is left. -/
theorem gist_insertion_nil (d : Dialect) (e : Entity) :
    Piece.gist true (insertion d e []).statement.draft.pieces =
      [.word "INSERT", .into, .name e.name] := by
  have hSuffix := Dialect.gist_suffix (d := d) e.columns
  have hOutput := Dialect.gist_output (d := d) e.columns [.defaults, .values] rfl
  rw [pieces_insertion]
  cases d with
  | mysql =>
    rw [Dialect.table]
    split <;> rfl
  | postgres | sqlite =>
    refine (congrArg (Piece.word "INSERT" :: ·) (Dialect.gist_into e.schema e.name
      (p := .defaults) (by decide) (by simp))).trans ?_
    exact congrArg ([Piece.word "INSERT", .into, .name e.name] ++ ·) hSuffix
  | sqlServer =>
    refine (congrArg (Piece.word "INSERT" :: ·) (Dialect.gist_into e.schema e.name
      (p := .hides) (by decide) (by simp))).trans ?_
    exact congrArg ([Piece.word "INSERT", .into, .name e.name] ++ ·) hOutput

theorem gist_insertion_cons (d : Dialect) (e : Entity) (a : Assignment) (as : List Assignment) :
    Piece.gist true (insertion d e (a :: as)).statement.draft.pieces =
      [.word "INSERT", .into, .name e.name] ++
        ((enclosed (listed ((a :: as).map Assignment.columnName))).pieces ++ .values ::
          (enclosed (listed ((a :: as).map Assignment.placeholder))).pieces) := by
  have hNames : Plain (listed ((a :: as).map Assignment.columnName)) :=
    .listed (List.forall_mem_map.mpr fun _ _ => by simp [Assignment.columnName])
  have hValues : Plain (enclosed (listed ((a :: as).map Assignment.placeholder))) :=
    Plain.enclosed (.listed (List.forall_mem_map.mpr fun _ _ => by simp [Assignment.placeholder]))
  -- With a name behind its parenthesis, this is no insertion without columns.
  obtain ⟨more, hMore⟩ : ∃ more, (listed ((a :: as).map Assignment.columnName)).pieces =
      .name a.column.name :: more := by
    cases as with
    | nil => exact ⟨_, rfl⟩
    | cons => exact ⟨_, rfl⟩
  have hBound := hValues.gives ((d.rowReturn e.columns).clauses.2.flatMap pieces)
  rw [Dialect.gist_suffix, List.append_nil] at hBound
  calc Piece.gist true (insertion d e (a :: as)).statement.draft.pieces
    _ = .word "INSERT" :: Piece.gist true (.into :: (d.table e.schema e.name).pieces ++
          ((enclosed (listed ((a :: as).map Assignment.columnName))).pieces ++
            ((d.rowReturn e.columns).clauses.1.flatMap pieces ++ .values ::
              ((enclosed (listed ((a :: as).map Assignment.placeholder))).pieces ++
                (d.rowReturn e.columns).clauses.2.flatMap pieces)))) := by
        rw [pieces_insertion]
        simp only [insertedValues, List.isEmpty_cons, Bool.false_eq_true, if_false,
          List.flatMap_cons, List.flatMap_nil, List.append_nil, List.append_assoc]
        rfl
    _ = [.word "INSERT", .into, .name e.name] ++ Piece.gist true
          ((enclosed (listed ((a :: as).map Assignment.columnName))).pieces ++
            ((d.rowReturn e.columns).clauses.1.flatMap pieces ++ .values ::
              ((enclosed (listed ((a :: as).map Assignment.placeholder))).pieces ++
                (d.rowReturn e.columns).clauses.2.flatMap pieces))) := by
        rw [pieces_enclosed, hMore]
        exact congrArg (Piece.word "INSERT" :: ·) (Dialect.gist_into e.schema e.name
          (p := .opening) (by decide) fun _ => ⟨_, _, rfl⟩)
    _ = _ := by
        rw [hNames.enclosed.gives, Dialect.gist_output e.columns _ rfl, Piece.gist_values, hBound]

theorem gist_insertion (e : Entity) (assignments : List Assignment) :
    ∃ out, ∀ d, Piece.gist true (insertion d e assignments).statement.draft.pieces = out := by
  cases assignments with
  | nil => exact ⟨_, fun d => gist_insertion_nil d e⟩
  | cons a as => exact ⟨_, fun d => gist_insertion_cons d e a as⟩

theorem entries_insertion (d : Dialect) (e : Entity) (assignments : List Assignment) :
    (insertion d e assignments).statement.draft.entries =
      assignments.map fun a => (a.column.name, a.value) := by
  have hName (a : Assignment) : a.columnName.entries = [] := rfl
  have hValue (a : Assignment) : a.placeholder.entries = [(a.column.name, a.value)] := rfl
  obtain ⟨hOutput, hSuffix⟩ := entries_clauses d e.columns
  have hBefore : (insertedValues d assignments).1.flatMap entries = [] := by
    cases assignments with
    | nil => cases d <;> rfl
    | cons => simp [insertedValues, List.flatMap_map, hName]
  have hAfter : (insertedValues d assignments).2.flatMap entries =
      assignments.map fun a => (a.column.name, a.value) := by
    cases assignments with
    | nil => cases d <;> rfl
    | cons => simp [insertedValues, List.flatMap_map, hValue, ← List.map_eq_flatMap]
  rw [insertion_statement, entries_spaced]
  simp [Statement.insertionPieces, entries_table, hOutput, hSuffix, hBefore, hAfter]

theorem saysAs_insertion (d d' : Dialect) (e : Entity) (assignments : List Assignment) :
    (insertion d e assignments).statement.SaysAs (insertion d' e assignments).statement := by
  obtain ⟨out, hGist⟩ := gist_insertion e assignments
  have hSame (d : Dialect) : (insertion d e assignments).statement.dialect = d := by
    rw [insertion_statement]
  exact Statement.saysAs_of_eq ((hSame d).symm ▸ legible_insertion d e assignments)
    ((hSame d').symm ▸ legible_insertion d' e assignments) (hGist d) (hGist d')
    (entries_insertion d e assignments) (entries_insertion d' e assignments)

theorem gist_rowUpdate (d : Dialect) (e : Entity) (key : Column) (v : BoundValue)
    (assignments : List Assignment) :
    Piece.gist true (rowUpdate d e key v assignments).statement.draft.pieces =
      [.table "UPDATE", .name e.name, .word "SET"] ++
        ((listed (assignments.map Assignment.equation)).pieces ++ .predicate ::
          (equals [.name key.name] (keyPlaceholder key v)).pieces) := by
  have hEquations : Plain (listed (assignments.map Assignment.equation)) :=
    .listed (List.forall_mem_map.mpr fun a _ => plain_comparison a.column a.value)
  have hKey := (plain_comparison key v).gives ((d.rowReturn e.columns).clauses.2.flatMap pieces)
  rw [Dialect.gist_suffix, List.append_nil] at hKey
  calc Piece.gist true (rowUpdate d e key v assignments).statement.draft.pieces
    _ = Piece.gist true (.table "UPDATE" :: (e.table d).pieces ++ .word "SET" ::
          ((listed (assignments.map Assignment.equation)).pieces ++
            ((d.rowReturn e.columns).clauses.1.flatMap pieces ++ .predicate ::
              ((equals [.name key.name] (keyPlaceholder key v)).pieces ++
                (d.rowReturn e.columns).clauses.2.flatMap pieces)))) := by
        rw [rowUpdate_statement, pieces_spaced]
        simp only [List.flatMap_cons, List.flatMap_nil, List.flatMap_append, List.append_nil,
          List.append_assoc]
        rfl
    _ = [.table "UPDATE", .name e.name, .word "SET"] ++ Piece.gist true
          ((listed (assignments.map Assignment.equation)).pieces ++
            ((d.rowReturn e.columns).clauses.1.flatMap pieces ++ .predicate ::
              ((equals [.name key.name] (keyPlaceholder key v)).pieces ++
                (d.rowReturn e.columns).clauses.2.flatMap pieces))) :=
        Dialect.gist_table "UPDATE" _ e.schema e.name (p := .word "SET") (by simp) _
    _ = _ := by
        rw [hEquations.gives, Dialect.gist_output e.columns _ rfl, Piece.gist_predicate, hKey]

theorem entries_rowUpdate (d : Dialect) (e : Entity) (key : Column) (v : BoundValue)
    (assignments : List Assignment) :
    (rowUpdate d e key v assignments).statement.draft.entries =
      assignments.map (fun a => (a.column.name, a.value)) ++ [(key.name, v)] := by
  have hEquation (a : Assignment) : a.equation.entries = [(a.column.name, a.value)] := rfl
  obtain ⟨hOutput, hSuffix⟩ := entries_clauses d e.columns
  rw [rowUpdate_statement, entries_spaced]
  simp [entries_table, keyPlaceholder, hOutput, hSuffix, hEquation, List.flatMap_map,
    ← List.map_eq_flatMap]

theorem saysAs_rowUpdate (d d' : Dialect) (e : Entity) (key : Column) (v : BoundValue)
    (assignments : List Assignment) :
    (rowUpdate d e key v assignments).statement.SaysAs
      (rowUpdate d' e key v assignments).statement := by
  have hSame (d : Dialect) : (rowUpdate d e key v assignments).statement.dialect = d := by
    rw [rowUpdate_statement]
  exact Statement.saysAs_of_eq ((hSame d).symm ▸ legible_rowUpdate d e key v assignments)
    ((hSame d').symm ▸ legible_rowUpdate d' e key v assignments)
    (gist_rowUpdate d e key v assignments) (gist_rowUpdate d' e key v assignments)
    (entries_rowUpdate d e key v assignments) (entries_rowUpdate d' e key v assignments)

end Mutation

/-- For one request all engines have the same gist and bind the same under the same names. The
literals of a list are the same too, and only those that are searched for become patterns. -/
theorem dialects_agree (d d' : Dialect) (e : Entity) :
    (∀ q : QueryPlan,
      (Statement.list d e q).select.SaysAsOf q.bound (Statement.list d' e q).select ∧
        (Statement.list d e q).count.SaysAsOf q.bound (Statement.list d' e q).count) ∧
    (∀ q id, Outcome.Agree Statement.SaysAs (Statement.read d e q id)
      (Statement.read d' e q id)) ∧
    (∀ body, Outcome.Agree (fun m m' => m.statement.SaysAs m'.statement)
      (Mutation.insert d e body) (Mutation.insert d' e body)) ∧
    (∀ id members, Outcome.Agree (fun m m' => m.statement.SaysAs m'.statement)
      (Mutation.update d e id members) (Mutation.update d' e id members)) ∧
    ∀ id, Outcome.Agree Statement.SaysAs (Mutation.delete d e id) (Mutation.delete d' e id) := by
  refine ⟨Statement.saysAsOf_list d d' e, fun q id => ?_, fun body => ?_, fun id members => ?_,
    fun id => ?_⟩
  · exact .bind _ fun ⟨key, v⟩ => .ok (Statement.saysAs_rowRead d d' e q key v)
  · rw [Mutation.insert, Mutation.insert]
    cases Assignment.ofMembers e true body with
    | ok assignments => exact .ok (Mutation.saysAs_insertion d d' e assignments)
    | error fault => exact .error _
  · refine .bind _ fun ⟨key, v⟩ => .bind _ fun assignments => ?_
    cases assignments with
    | nil => exact .ok (Mutation.saysAs_rowByKey d d' e key v)
    | cons a as => exact .ok (Mutation.saysAs_rowUpdate d d' e key v (a :: as))
  · exact .bind _ fun ⟨key, v⟩ => .ok (Mutation.saysAs_rowDeletion d d' e key v)

end TableGateway
