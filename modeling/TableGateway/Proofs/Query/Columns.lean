import TableGateway.Proofs.Query.Scope
import TableGateway.Proofs.Sql.Output

/-!
# Columns of a query

A query is answered with the columns that its fields name, under the names that they would have if
no column was cast. A statement that changes a row hands back the columns of the entity. In either
list a column is cast if it is a decimal and the engine is PostgreSQL, and only then.
-/

namespace TableGateway

open Draft

variable {catalog : Catalog} {d : Dialect} {e x : Entity} {children : List Entity} {js : List Join}

namespace SelectItem

variable {item : SelectItem} {items : List SelectItem}

def plain : SelectItem → Draft
  | .wildcard aliasName => [.name aliasName, .mark .dot, .mark .star]
  | .column aliasName name label _ =>
    columnOf aliasName name ++ (label.map Dialect.labelled).getD []

/-- The columns of a projection whose items are written without any cast. -/
def plainOutputs? (d : Dialect) (e : Entity) (items : List SelectItem) : Option (List Output) :=
  Output.readList? e (d.tokens ((listed (items.map plain)).toText d).toList)

def uncast (e : Entity) : SelectItem → List Output
  | .wildcard aliasName => Output.everything e aliasName
  | .column aliasName name label _ => [⟨some aliasName, name, false, label⟩]

theorem legible_plain (item : SelectItem) : Legible d item.plain := by
  cases item with
  | wildcard aliasName => simp [plain, legible_cons_cons, Apart, Part.isSeparator, Part.isReadable]
  | column aliasName name label type =>
    cases label <;>
      simp [plain, columnOf, Dialect.labelled, legible_cons_cons, Apart, Part.isSeparator,
        Part.isReadable]

theorem silent_plain (item : SelectItem) : Silent item.plain := by
  cases item with
  | wildcard aliasName => simp [plain, Part.isSilent]
  | column aliasName name label type =>
    cases label <;> simp [plain, Dialect.silent_columnOf, Dialect.labelled, Part.isSilent]

theorem spells_plain (item : SelectItem) (ps : Parameters) :
    Output.Spells e (item.plain.tokens d ps) (item.uncast e) := by
  cases item with
  | wildcard aliasName => exact Output.spells_everything aliasName
  | column aliasName name label type =>
    have hTokens : (plain (.column aliasName name label type)).tokens d ps =
        (⟨some aliasName, name, false, label⟩ : Output).tokens := by
      cases label <;> rfl
    rw [hTokens]
    exact Output.spells_tokens _

theorem plainOutputs?_eq (d : Dialect) (e : Entity) (items : List SelectItem) :
    plainOutputs? d e items = some (items.flatMap (uncast e)) := by
  have hLegible : Legible d (listed (items.map plain)) :=
    .listed (List.forall_mem_map.mpr fun item _ => legible_plain item)
  rw [plainOutputs?, toText, String.toList_ofList, tokens_write {} hLegible]
  exact (lists_listed silent_plain spells_plain items).read {}

/-- The columns of an item, with a wildcard spelled out where a column of the entity is cast. -/
def written (d : Dialect) (e : Entity) (item : SelectItem) : List Output :=
  if e.needsCast d then (e.expand item).flatMap (outputs d e) else item.outputs d e

theorem flatMap_selected (d : Dialect) (e : Entity) (items : List SelectItem) :
    (e.selected d items).flatMap (outputs d e) = items.flatMap (written d e) := by
  unfold Entity.selected written
  split
  · exact List.flatMap_assoc
  · rfl

theorem written_column (d : Dialect) (e : Entity) (aliasName name : String) (label : Option String)
    (type : DataType) :
    written d e (.column aliasName name label type) =
      [d.output (some aliasName) name type label] := by
  rw [written]
  split <;> rfl

theorem written_wildcard (d : Dialect) (e : Entity) (aliasName : String) :
    written d e (.wildcard aliasName) =
      e.columns.map fun c => if e.needsCast d then d.output (some aliasName) c.name c.type none
        else ⟨some aliasName, c.name, false, none⟩ := by
  rw [written]
  split
  · simp only [Entity.expand, List.flatMap_map]
    exact List.flatMap_pure_eq_map _ e.columns
  · rfl

theorem map_result_written (d : Dialect) (e : Entity) (item : SelectItem) :
    (item.written d e).map Output.result = (item.uncast e).map Output.result := by
  cases item with
  | wildcard aliasName =>
    rw [written_wildcard, uncast, Output.everything, List.map_map, List.map_map]
    refine List.map_congr_left fun c _ => ?_
    dsimp only [Function.comp]
    split
    · exact Dialect.result_output
    · rfl
  | column aliasName name label type =>
    rw [written_column]
    exact congrArg ([·]) Dialect.result_output

/-- Casts change the name of no column. -/
theorem map_result_selected (d : Dialect) (e : Entity) (items : List SelectItem) :
    ((e.selected d items).flatMap (outputs d e)).map Output.result =
      (items.flatMap (uncast e)).map Output.result := by
  rw [flatMap_selected, List.map_flatMap, List.map_flatMap]
  simp only [map_result_written]

end SelectItem

/-- The column is taken from this alias, and cast if it is a decimal and the engine is
PostgreSQL. -/
structure Output.Shows (d : Dialect) (source : Option String) (c : Column) (o : Output) :
    Prop where
  source : o.source = source
  name : o.name = c.name
  asText_iff : o.asText = true ↔ d = .postgres ∧ c.type = .decimal

/-- The columns of a list are these ones of these entities, in their order. -/
def Output.ShowAll (d : Dialect) (shown : List (Entity × Column)) (os : List Output) : Prop :=
  List.Forall₂ (fun p o => Shows d (some p.1.aliasName) p.2 o) shown os

theorem Dialect.shows_output (d : Dialect) (source : Option String) (c : Column)
    (label : Option String) : Output.Shows d source c (d.output source c.name c.type label) where
  source := by
    rw [output]
    split <;> rfl
  name := by
    rw [output]
    split <;> rfl
  asText_iff := asText_output

theorem Entity.not_cast_of_mem {c : Column} (h : e.needsCast d = false) (hColumn : c ∈ e.columns) :
    ¬ (d = .postgres ∧ c.type = .decimal) := by
  intro hCast
  have hPlain := List.any_eq_false.mp h c hColumn
  simp [Dialect.castBack?, hCast] at hPlain

theorem Entity.find?_alias {xs : List Entity} (hx : x ∈ xs)
    (hAliases : (xs.map fun y => Text.lowercase y.aliasName).Nodup) :
    (xs.find? fun y => y.aliasName = x.aliasName) = some x := by
  refine find?_eq_some_of_unique hx (decide_eq_true rfl) fun y hy hSame => ?_
  have hAlias : y.aliasName = x.aliasName := of_decide_eq_true hSame
  exact List.inj_on_of_nodup_map hAliases hy hx (congrArg Text.lowercase hAlias)

namespace SelectItem

/-- The columns that an item names, each with the entity that goes by the alias. -/
def columns (e : Entity) (children : List Entity) : SelectItem → List (Entity × Column)
  | .wildcard _ => e.columns.map (e, ·)
  | .column aliasName name _ _ =>
    (((e :: children).find? fun x => x.aliasName = aliasName).bind fun x =>
      (x.column? name).map (x, ·)).toList

theorem showAll_wildcard (d : Dialect) (e : Entity) (children : List Entity) :
    Output.ShowAll d (columns e children (.wildcard e.aliasName))
      (written d e (.wildcard e.aliasName)) := by
  rw [Output.ShowAll, written_wildcard, columns, List.forall₂_map_left_iff,
    List.forall₂_map_right_iff, List.forall₂_same]
  intro c hColumn
  split
  · exact d.shows_output (some e.aliasName) c none
  · next hPlain =>
    have hNot := Entity.not_cast_of_mem (Bool.eq_false_iff.mpr hPlain) hColumn
    exact ⟨rfl, rfl, by simpa using hNot⟩

theorem showAll_column {c : Column} (label : Option String) (hEntity : x ∈ e :: children)
    (hAliases : ((e :: children).map fun y => Text.lowercase y.aliasName).Nodup)
    (hColumn : x.column? c.name = some c) :
    Output.ShowAll d (columns e children (.column x.aliasName c.name label c.type))
      (written d e (.column x.aliasName c.name label c.type)) := by
  rw [Output.ShowAll, written_column, columns, Entity.find?_alias hEntity hAliases,
    Option.bind_some, hColumn]
  exact .cons (d.shows_output (some x.aliasName) c label) .nil

theorem Found.showAll {item : SelectItem} (h : item.Found catalog e js)
    (hAlone : ∀ child ∈ children, child.Alone catalog)
    (hAliases : ((e :: children).map fun y => Text.lowercase y.aliasName).Nodup)
    (hPath : Join.Path catalog e children js) :
    Output.ShowAll d (columns e children item) (written d e item) := by
  cases h with
  | everything => exact showAll_wildcard d e children
  | own isColumn => exact showAll_column none List.mem_cons_self hAliases isColumn
  | included isIncluded isColumn =>
    have hChild := mem_of_included? (fun child hChild _ => hAlone child hChild) hPath isIncluded
    exact showAll_column _ (List.mem_cons_of_mem e hChild) hAliases isColumn

theorem showAll_selected {items : List SelectItem}
    (h : ∀ item ∈ items, Output.ShowAll d (columns e children item) (written d e item)) :
    Output.ShowAll d (items.flatMap (columns e children))
      ((e.selected d items).flatMap (outputs d e)) := by
  rw [flatMap_selected]
  induction items with
  | nil => exact .nil
  | cons item items ih =>
    rw [List.forall_mem_cons] at h
    exact List.rel_append h.1 (ih h.2)

end SelectItem

/-- What is handed back for a query: the columns of its fields, under the names that they have where
nothing is cast. -/
structure QueryPlan.Shown (d : Dialect) (e : Entity) (children : List Entity) (q : QueryPlan)
    (os : List Output) : Prop where
  names : (SelectItem.plainOutputs? d e q.fields).map (List.map Output.result) =
    some (os.map Output.result)
  columns : Output.ShowAll d (q.fields.flatMap (SelectItem.columns e children)) os

/-- What is handed back for a changed row: the columns of the entity. -/
structure Entity.Shown (d : Dialect) (e : Entity) (os : List Output) : Prop where
  names : os.map Output.result = e.columns.map Column.name
  columns : List.Forall₂ (Output.Shows d none) e.columns os

theorem Entity.shown_columns (d : Dialect) (e : Entity) :
    e.Shown d (e.columns.map (Column.output d)) where
  names := by
    rw [List.map_map]
    exact List.map_congr_left fun c _ => Dialect.result_output
  columns := by
    rw [List.forall₂_map_right_iff, List.forall₂_same]
    exact fun c _ => d.shows_output none c none

namespace QueryPlan

variable {limits : PagingLimits} {o : QueryOptions} {q : QueryPlan}

theorem shown_selected (hValid : catalog.Valid) (hEntity : e ∈ catalog.entities)
    (hCompile : compile catalog e limits o = .ok q) :
    ∃ children, Join.Path catalog e children q.joins ∧
      ∀ d, q.Shown d e children
        ((e.selected d q.fields).flatMap (SelectItem.outputs d e)) := by
  obtain ⟨children, hPath, hAlone, hNames⟩ := exists_alone_path hValid hEntity hCompile
  have hFound := SelectItem.found_of_compile (compile_eq_ok hCompile).2.1
  have hAliases := nodup_aliases hNames
  refine ⟨children, hPath, fun d => ⟨?_, ?_⟩⟩
  · rw [SelectItem.plainOutputs?_eq, Option.map_some, SelectItem.map_result_selected]
  · exact SelectItem.showAll_selected fun item hItem =>
      (hFound item hItem).showAll hAlone hAliases hPath

/-- By a compiled query every engine hands back the columns of the fields, under the names that they
have where nothing is cast. A row that is inserted or updated is handed back with the columns of the
entity, unless the engine is MySQL and no key tells the inserted row. -/
theorem casts_keep_columns {text : String} (hLoad : Catalog.load text = .ok catalog)
    (hEntity : e ∈ catalog.entities) (hCompile : compile catalog e limits o = .ok q) :
    ∃ children, Join.Path catalog e children q.joins ∧ ∀ d,
      (∀ s, s = (Statement.list d e q).select ∨ (∃ id, Statement.read d e q id = .ok s) →
        ∃ os, s.outputs? e = some os ∧ q.Shown d e children os) ∧
      (∀ body m, Mutation.insert d e body = .ok m →
        if d = .mysql ∧ e.primaryKey? = none then m.outputs e = []
        else ∃ os, m.outputs e = [os] ∧ e.Shown d os) ∧
      ∀ id members m, Mutation.update d e id members = .ok m →
        ∃ os, m.outputs e = [os] ∧ e.Shown d os := by
  obtain ⟨children, hPath, hShown⟩ :=
    shown_selected (Catalog.valid_of_load hLoad) hEntity hCompile
  refine ⟨children, hPath, fun d => ⟨?_, ?_, ?_⟩⟩
  · rintro s (rfl | ⟨id, hRead⟩)
    · exact ⟨_, Statement.outputs?_list d e q, hShown d⟩
    · obtain ⟨key, v, -, -, rfl⟩ := Statement.read_eq_ok hRead
      exact ⟨_, Statement.outputs?_rowRead d e q key v, hShown d⟩
  · intro body m hInsert
    have hOutputs := Mutation.outputs_insert hInsert
    split
    · next hNone => rwa [if_pos hNone] at hOutputs
    · next hSome =>
      rw [if_neg hSome] at hOutputs
      exact ⟨_, hOutputs, e.shown_columns d⟩
  · intro id members m hUpdate
    exact ⟨_, Mutation.outputs_update hUpdate, e.shown_columns d⟩

def sampleTotal : Column := { name := "Total", type := .decimal }

def sampleInvoices : Entity :=
  ⟨"invoices", "sales", false, [Join.sampleId, Join.sampleReference, sampleTotal]⟩

def sampleSales : Catalog := ⟨[⟨"sales", [Join.sampleCustomers "sales", sampleInvoices], []⟩]⟩

/-- The numbers of the customers with the totals of their invoices. -/
def totalOptions : QueryOptions :=
  { fields := some "id, INVOICES.total", includes := some "Invoices" }

def totalPlan : QueryPlan where
  filter := none
  sort := []
  fields := [.column "t_customers" "ID" none .integer,
    .column "t_invoices" "Total" (some "invoices.Total") .decimal]
  joins := [.between (Join.sampleCustomers "sales") sampleInvoices Join.sampleId
    Join.sampleReference]
  paging := ⟨25, 0⟩

theorem totalPlan_keeps_columns :
    Catalog.load sampleSales.toText = .ok sampleSales ∧
    Join.sampleCustomers "sales" ∈ sampleSales.entities ∧
    compile sampleSales (Join.sampleCustomers "sales") {} totalOptions = .ok totalPlan ∧
    ∃ children, Join.Path sampleSales (Join.sampleCustomers "sales") children totalPlan.joins ∧
      ∀ d, ∃ os,
        (Statement.list d (Join.sampleCustomers "sales") totalPlan).select.outputs?
          (Join.sampleCustomers "sales") = some os ∧
        totalPlan.Shown d (Join.sampleCustomers "sales") children os := by
  have hLoad : Catalog.load sampleSales.toText = .ok sampleSales :=
    Catalog.load_toText sampleSales (by decide +kernel)
  have hEntity : Join.sampleCustomers "sales" ∈ sampleSales.entities := by decide
  have hCompile : compile sampleSales (Join.sampleCustomers "sales") {} totalOptions =
      .ok totalPlan := rfl
  obtain ⟨children, hPath, hKept⟩ := casts_keep_columns hLoad hEntity hCompile
  exact ⟨hLoad, hEntity, hCompile, children, hPath, fun d => (hKept d).1 _ (.inl rfl)⟩

end QueryPlan

end TableGateway
