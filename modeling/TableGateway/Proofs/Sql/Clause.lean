import TableGateway.Proofs.Sql.Legible
import TableGateway.Sql.Clause

/-!
# Legible clauses

Every clause that statements are put together from is legible.
-/

namespace TableGateway.Dialect

open Draft

variable {d : Dialect}

theorem legible_table (schema table : String) : Legible d (d.table schema table) := by
  rw [Dialect.table]
  split
  · exact legible_singleton.mpr rfl
  · exact legible_columnOf schema table

theorem legible_relation (c : Condition) (v : BoundValue) : Legible d (relation c v) :=
  .spaced (by simp [legible_columnOf, Part.isReadable])

theorem legible_patternCondition (c : Condition) (v : BoundValue) :
    Legible d (d.patternCondition c v) := by
  cases d with
  | postgres =>
    by_cases hText : c.type = .text <;>
      simp [patternCondition, matchForm, hText, columnOf, legible_cons_cons, Apart,
        Part.isSeparator, Part.isReadable]
  | mysql | sqlite | sqlServer =>
    simp [patternCondition, matchForm, columnOf, legible_cons_cons, Apart, Part.isSeparator,
      Part.isReadable]

theorem legible_condition (c : Condition) : Legible d (d.condition c) := by
  rw [condition]
  split
  · exact .spaced (by simp [legible_columnOf, legible_words])
  · exact .spaced (by simp [legible_columnOf, legible_words])
  · refine .spaced ?_
    have hList (vs : List BoundValue) :
        Legible d (listed (vs.map fun v => [Part.value c.column v (some c.type)])) :=
      .listed (by simp [Part.isReadable])
    simp [legible_columnOf, Part.isReadable, (hList _).enclosed]
  · exact legible_patternCondition c _
  · exact legible_patternCondition c _
  · exact legible_relation c _
  · exact legible_relation c _

theorem legible_filter (f : Filter) : Legible d (d.filter f) := by
  induction f with
  | condition c => exact legible_condition c
  | combined left op right ihLeft ihRight =>
    exact .spaced (by simp [ihLeft, ihRight, Part.isReadable])
  | group inner ih => exact ih.enclosed

theorem castBack?_eq_some_iff {type : DataType} {cast : Draft} :
    d.castBack? type = some cast ↔
      (d = .postgres ∧ type = .decimal) ∧ cast = [.mark .cast, .keyword .textType] := by
  rw [castBack?]
  split
  · next h => simp [h, eq_comm]
  · next h => simp [h]

theorem legible_selectItem (item : SelectItem) : Legible d (d.selectItem item) := by
  cases item with
  | wildcard aliasName =>
    simp [selectItem, legible_cons_cons, Apart, Part.isSeparator, Part.isReadable]
  | column aliasName column label type =>
    cases hCast : d.castBack? type with
    | some cast =>
      obtain ⟨⟨rfl, -⟩, rfl⟩ := castBack?_eq_some_iff.mp hCast
      simp [selectItem, hCast, columnOf, labelled, legible_cons_cons, Apart, Part.isSeparator,
        Part.isReadable]
    | none =>
      cases label with
      | some label =>
        simp [selectItem, hCast, columnOf, labelled, legible_cons_cons, Apart, Part.isSeparator,
          Part.isReadable]
      | none => simpa [selectItem, hCast] using legible_columnOf aliasName column

theorem legible_selectItems (items : List SelectItem) : Legible d (d.selectItems items) :=
  .listed (by simp [legible_selectItem])

theorem legible_readAs (type : DataType) (s output : String) :
    Legible d (.name s :: d.readAs type output) := by
  cases hCast : d.castBack? type with
  | some cast =>
    obtain ⟨⟨rfl, -⟩, rfl⟩ := castBack?_eq_some_iff.mp hCast
    simp [readAs, hCast, labelled, legible_cons_cons, Apart, Part.isSeparator, Part.isReadable]
  | none => simp [readAs, hCast, Part.isReadable]

theorem legible_columns (cs : List Column) : Legible d (d.columns cs) :=
  .listed (by simp [legible_readAs])

theorem legible_sortKeys (ks : List SortKey) : Legible d (sortKeys ks) := by
  have hKey (k : SortKey) : Legible d (sortKey k) :=
    .spaced (by simp [legible_columnOf, Part.isReadable])
  exact .listed (by simp [hKey])

theorem legible_joins {a : Draft} (h : Legible d a) (js : List Join) :
    Legible d (a ++ d.joins js) := by
  have hOn (j : Join) : Legible d (equals (columnOf j.parentAlias j.parentColumn)
      (columnOf j.childAlias j.childColumn)) :=
    (legible_columnOf ..).equals (legible_columnOf ..)
  induction js generalizing a with
  | nil => simpa [joins] using h
  | cons j js ih =>
    rw [joins, List.flatMap_cons, ← List.append_assoc]
    refine ih (h.append_cons rfl rfl (.spaced ?_))
    simp [legible_words, legible_table, Part.isReadable, hOn]

theorem legible_paging (p : Paging) (ordered : Bool) : Legible d (d.paging p ordered) := by
  have hPage : Legible d (spaced
      [[.keyword .OFFSET], [.number p.offset], words [.ROWS, .FETCH, .NEXT],
      [.number p.limit], words [.ROWS, .ONLY]]) :=
    .spaced (by simp [legible_words, Part.isReadable])
  have hOrder : Legible d constantOrder :=
    .spaced (by simp [legible_words, (legible_words _).enclosed])
  rw [paging]
  split
  · split
    · exact hPage
    · exact .spaced (by simp [hPage, hOrder])
  · exact .spaced (by simp [Part.isReadable])

end TableGateway.Dialect
