import TableGateway.Proofs.Sql.Insertion
import TableGateway.Proofs.Sql.Request

/-!
# Bound statements

In every statement the placeholders denote the parameters one by one, and each parameter has the
value that is meant where its placeholder stands.
-/

namespace TableGateway

open Draft

variable {d : Dialect} {e : Entity}

namespace Statement

theorem Binds.of_predicate {s : Statement} {k : Keyword} {ls ms : List (Landmark BoundValue)}
    {meant more : List (Site × BoundValue)} (h : Legible s.dialect s.draft)
    (hHead : s.draft.head? = some (.keyword k)) (hInsert : k ≠ .INSERT)
    (hLandmarks : s.draft.landmarks = ls ++ .predicate :: ms)
    (hLeft : Landmark.Brings false ls meant) (hRight : Landmark.Brings true ms more) :
    s.Binds (meant ++ more) :=
  .of_landmarks h hHead hInsert (by rw [hLandmarks, hLeft.sites_predicate hRight])

end Statement

namespace Entity

theorem legible_table (d : Dialect) (e : Entity) : Legible d (e.table d) :=
  Dialect.legible_table e.schema e.name

theorem silent_table (d : Dialect) (e : Entity) : Silent (e.table d) :=
  Dialect.silent_table e.schema e.name

theorem legible_source (d : Dialect) (e : Entity) (js : List Join) : Legible d (e.source d js) :=
  Dialect.legible_joins (.spaced (by simp [legible_table, Part.isReadable])) js

theorem silent_source (d : Dialect) (e : Entity) (js : List Join) : Silent (e.source d js) :=
  silent_append.mpr
    ⟨.spaced (by simp [silent_table, Part.isSilent]), Dialect.silent_joins js⟩

theorem legible_projection (d : Dialect) (e : Entity) (items : List SelectItem) :
    Legible d (e.projection d items) :=
  Dialect.legible_selectItems _

theorem silent_projection (d : Dialect) (e : Entity) (items : List SelectItem) :
    Silent (e.projection d items) :=
  Dialect.silent_selectItems _

end Entity

namespace Statement

/-- The literals of the filter, if there is one. -/
def meantBy (d : Dialect) (filter : Option Filter) : List (Site × BoundValue) :=
  filter.toList.flatMap (Filter.meant d)

theorem legible_predicate (filter : Option Filter) : ∀ a ∈ predicate d filter, Legible d a := by
  cases filter with
  | none => simp [predicate]
  | some f =>
    have hWhere : Legible d (spaced [[.keyword .WHERE], d.filter f]) :=
      .spaced (by simp [Dialect.legible_filter, Part.isReadable])
    simpa [predicate] using hWhere

/-- Around its predicate a statement that selects rows is silent. -/
theorem binds_selection (front back : List Draft) (filter : Option Filter)
    (hHead : (spaced (front ++ predicate d filter ++ back)).head? = some (.keyword .SELECT))
    (hFront : ∀ a ∈ front, Legible d a ∧ Silent a) (hBack : ∀ a ∈ back, Legible d a ∧ Silent a) :
    Binds ⟨d, spaced (front ++ predicate d filter ++ back)⟩ (meantBy d filter) := by
  have hLegible : Legible d (spaced (front ++ predicate d filter ++ back)) := by
    refine .spaced ?_
    simp only [List.forall_mem_append]
    exact ⟨⟨fun a ha => (hFront a ha).1, legible_predicate filter⟩, fun a ha => (hBack a ha).1⟩
  have hBefore : Silent (spaced front) := .spaced fun a ha => (hFront a ha).2
  have hBehind : Silent (spaced back) := .spaced fun a ha => (hBack a ha).2
  cases filter with
  | none =>
    refine .of_landmarks hLegible hHead (by decide) ?_
    have hLandmarks : (spaced (front ++ predicate d none ++ back)).landmarks =
        (spaced front).landmarks ++ (spaced back).landmarks := by simp [predicate]
    rw [hLandmarks, (hBefore.brings.append hBehind.brings).sites_eq]
    rfl
  | some f =>
    have hLandmarks : (spaced (front ++ predicate d (some f) ++ back)).landmarks =
        (spaced front).landmarks ++
          .predicate :: ((d.filter f).landmarks ++ (spaced back).landmarks) := by
      simp [predicate]
    have hBinds := Binds.of_predicate (s := ⟨d, _⟩) (k := .SELECT) hLegible hHead (by decide)
      hLandmarks hBefore.brings ((Dialect.brings_filter d f).append hBehind.brings)
    rw [List.nil_append, List.append_nil] at hBinds
    rw [meantBy, Option.toList_some, List.flatMap_singleton]
    exact hBinds

theorem orderClause_forall (keys : List SortKey) :
    ∀ a ∈ orderClause keys, Legible d a ∧ Silent a := by
  rw [orderClause]
  split
  · simp
  · have hWords : Silent (words [.ORDER, .BY]) := silent_words (by decide)
    rw [List.forall_mem_singleton]
    exact ⟨.spaced (by simp [legible_words, Dialect.legible_sortKeys]),
      .spaced (by simp [hWords, Dialect.silent_sortKeys])⟩

theorem binds_list (d : Dialect) (e : Entity) (q : QueryPlan) :
    (list d e q).select.Binds (meantBy d q.filter) ∧
      (list d e q).count.Binds (meantBy d q.filter) := by
  have hSource : Legible d (e.source d q.joins) ∧ Silent (e.source d q.joins) :=
    ⟨e.legible_source d q.joins, e.silent_source d q.joins⟩
  have hProjection : Legible d (e.projection d q.fields) ∧ Silent (e.projection d q.fields) :=
    ⟨e.legible_projection d q.fields, e.silent_projection d q.fields⟩
  have hKeyword {k : Keyword} (h : k ≠ .WHERE) : Legible d [.keyword k] ∧ Silent [.keyword k] := by
    simp [Part.isReadable, Part.isSilent, h]
  have hCount : Legible d (.keyword .COUNT :: enclosed [.mark .star]) ∧
      Silent (.keyword .COUNT :: enclosed [.mark .star]) := by
    simp [enclosed, legible_cons_cons, Apart, Part.isSeparator, Part.isReadable, Part.isSilent]
  have hPage : ∀ a ∈ orderClause (e.ordering q.sort) ++
      [d.paging q.paging !(e.ordering q.sort).isEmpty], Legible d a ∧ Silent a := by
    simp only [List.forall_mem_append, List.forall_mem_singleton]
    exact ⟨orderClause_forall _, Dialect.legible_paging _ _, Dialect.silent_paging _ _⟩
  constructor
  · exact binds_selection
      [[.keyword .SELECT], e.projection d q.fields, [.keyword .FROM], e.source d q.joins] _ q.filter
      rfl (by simp [hSource, hProjection, hKeyword]) hPage
  · have hBinds := binds_selection (d := d)
      [[.keyword .SELECT], .keyword .COUNT :: enclosed [.mark .star], [.keyword .FROM],
        e.source d q.joins]
      [] q.filter rfl (by simp [hSource, hCount, hKeyword]) (by simp)
    rwa [List.append_nil] at hBinds

theorem binds_rowRead (e : Entity) (q : QueryPlan) (key : Column) (v : BoundValue) :
    (rowRead d e q key v).Binds [(.compared key.name, v)] := by
  have hEquals : Legible d
      (equals (columnOf e.aliasName key.name) [.value key.name v (some key.type)]) :=
    (legible_columnOf ..).equals (legible_singleton.mpr rfl)
  have hAlias : Landmark.Brings true [.name e.aliasName] [] := Landmark.brings_of_names (by simp)
  rw [rowRead]
  exact .of_predicate (k := .SELECT)
    (.spaced (by simp [Entity.legible_projection, Entity.legible_source, hEquals, Part.isReadable]))
    rfl (by decide) (by simp)
    ((e.silent_projection d q.fields).brings.append (e.silent_source d q.joins).brings)
    (hAlias.append (Landmark.brings_value key.name v))

end Statement

namespace Mutation

theorem legible_keyPlaceholder (column : Column) (v : BoundValue) :
    Legible d (keyPlaceholder column v) :=
  legible_singleton.mpr rfl

theorem legible_comparison {key : Draft} (column : Column) (h : Legible d key) :
    Legible d (equals [.name column.name] key) :=
  (legible_singleton.mpr rfl).equals h

@[simp] theorem landmarks_keyPlaceholder (column : Column) (v : BoundValue) :
    (keyPlaceholder column v).landmarks = [.value v] := rfl

theorem binds_rowByKey {column : Column} {key : Draft} {meant : List (Site × BoundValue)}
    (hKey : Legible d key)
    (hMeant : Landmark.Brings true (.name column.name :: key.landmarks) meant) :
    (rowByKey d e column key).Binds meant := by
  have hEquals := legible_comparison column hKey
  rw [rowByKey]
  exact .of_predicate (k := .SELECT)
    (.spaced (by simp [Dialect.legible_columns, Entity.legible_table, hEquals, Part.isReadable]))
    rfl (by decide) (by simp)
    ((Dialect.silent_columns (d := d) e.columns).brings.append (e.silent_table d).brings) hMeant

theorem binds_rowByKey_value (column : Column) (v : BoundValue) :
    (rowByKey d e column (keyPlaceholder column v)).Binds [(.compared column.name, v)] :=
  binds_rowByKey (legible_keyPlaceholder column v) (Landmark.brings_value column.name v)

theorem binds_rowDeletion (d : Dialect) (e : Entity) (column : Column) (v : BoundValue) :
    (rowDeletion d e column v).Binds [(.compared column.name, v)] := by
  have hEquals : Legible d (equals [.name column.name] (keyPlaceholder column v)) :=
    legible_comparison column (legible_keyPlaceholder column v)
  rw [rowDeletion]
  exact .of_predicate (k := .DELETE)
    (.spaced (by simp [legible_words, Entity.legible_table, hEquals, Part.isReadable]))
    rfl (by decide) (by simp) (e.silent_table d).brings (Landmark.brings_value column.name v)

theorem brings_assignments (assignments : List Assignment) :
    Landmark.Brings false ((assignments.map Assignment.equation).flatMap landmarks)
      (assignments.map Assignment.meant) := by
  induction assignments with
  | nil => exact Landmark.brings_of_names (by simp)
  | cons a as ih =>
    rw [List.map_cons, List.flatMap_cons, Assignment.equation, landmarks_equals]
    exact (Landmark.brings_value a.column.name a.value).append ih

theorem rowUpdate_statement (d : Dialect) (e : Entity) (column : Column) (key : BoundValue)
    (assignments : List Assignment) :
    (rowUpdate d e column key assignments).statement =
      ⟨d, spaced ([[.keyword .UPDATE], e.table d, [.keyword .SET],
        listed (assignments.map Assignment.equation)] ++ (d.rowReturn e.columns).clauses.1 ++
          [[.keyword .WHERE], equals [.name column.name] (keyPlaceholder column key)] ++
            (d.rowReturn e.columns).clauses.2)⟩ := by
  rw [rowUpdate]
  cases d.rowReturn e.columns with
  | suffix | output | selectBack => simp [Dialect.RowReturn.clauses]

theorem legible_rowUpdate (d : Dialect) (e : Entity) (column : Column) (key : BoundValue)
    (assignments : List Assignment) :
    Legible d (rowUpdate d e column key assignments).statement.draft := by
  have hClauses := Dialect.naming_clauses d e.columns
  have hEquations : Legible d (listed (assignments.map Assignment.equation)) :=
    .listed (List.forall_mem_map.mpr fun a _ =>
      legible_comparison a.column (legible_singleton.mpr rfl))
  have hEquals := legible_comparison column (legible_keyPlaceholder (d := d) column key)
  rw [rowUpdate_statement]
  simp only [List.forall_mem_append] at hClauses
  apply Legible.spaced
  simp only [List.forall_mem_append]
  exact ⟨⟨⟨by simp [Entity.legible_table, hEquations, Part.isReadable],
    fun a ha => (hClauses.1 a ha).legible⟩, by simp [hEquals, Part.isReadable]⟩,
    fun a ha => (hClauses.2 a ha).legible⟩

theorem binds_rowUpdate (d : Dialect) (e : Entity) (column : Column) (key : BoundValue)
    (assignments : List Assignment) :
    (rowUpdate d e column key assignments).statement.Binds
      (assignments.map Assignment.meant ++ [(.compared column.name, key)]) := by
  have hClauses := Dialect.naming_clauses d e.columns
  have hLegible := legible_rowUpdate d e column key assignments
  rw [rowUpdate_statement] at hLegible ⊢
  generalize (d.rowReturn e.columns).clauses = clauses at hClauses hLegible ⊢
  obtain ⟨output, suffix⟩ := clauses
  simp only [List.forall_mem_append] at hClauses
  have hOutput : Naming d (spaced output) := .spaced hClauses.1
  have hSuffix : Naming d (spaced suffix) := .spaced hClauses.2
  have hBefore := (e.silent_table d).brings.append
    ((brings_assignments assignments).append hOutput.brings)
  have hKey : Landmark.Brings true [.name column.name, .value key] [(.compared column.name, key)] :=
    Landmark.brings_value column.name key
  have hBehind := hKey.append hSuffix.brings
  rw [List.nil_append, List.append_nil] at hBefore
  rw [List.append_nil] at hBehind
  refine .of_predicate (k := .UPDATE) hLegible rfl (by decide) ?_ hBefore hBehind
  simp

end Mutation

end TableGateway
