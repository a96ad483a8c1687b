import Mathlib.Data.List.Nodup
import Mathlib.Logic.Function.Basic
import TableGateway.Proofs.Query.Scope

/-!
# Rows of selections

What a plan selects from the tables: the rows of the entity, each joined with the rows of its
includes, where the filter is true. Every joined row comes from one row of the entity, but several
may come from the same one. That is so unless the includes find at most one row each, as they do
where they are joined on a primary key.
-/

namespace TableGateway

/-- What an engine makes of the cells of its tables. -/
structure Engine (α : Type) where
  null : α
  judge : Condition → α → Formula.Truth

/-- A row of a table, by the names of its columns. -/
abbrev TableRow (α : Type) := String → α

/-- The rows of all tables, by schema and name. -/
abbrev Contents (α : Type) := String → String → List (TableRow α)

/-- A row of a table for every alias. -/
abbrev JoinedRow (α : Type) := String → TableRow α

variable {α : Type}

/-- No two rows of the table have the same cell in this column. -/
def Contents.Identifies (contents : Contents α) (x : Entity) (c : Column) : Prop :=
  ((contents x.schema x.name).map fun row => row c.name).Nodup

def Entity.rows (E : Engine α) (contents : Contents α) (e : Entity) : List (JoinedRow α) :=
  (contents e.schema e.name).map (Function.update (fun _ _ => E.null) e.aliasName)

theorem Entity.map_base_rows (E : Engine α) (contents : Contents α) (e : Entity) :
    (e.rows E contents).map (fun r => r e.aliasName) = contents e.schema e.name := by
  have hBase : (fun r : JoinedRow α => r e.aliasName) ∘
      Function.update (fun _ _ => E.null) e.aliasName = id := by
    funext row
    rw [Function.comp_apply, Function.update_self, id]
  rw [rows, List.map_map, hBase, List.map_id]

namespace Join

variable [DecidableEq α] (E : Engine α) (contents : Contents α)

/-- The rows of the child that a row is joined with. Null equals nothing. -/
def partners (j : Join) (r : JoinedRow α) : List (TableRow α) :=
  (contents j.childSchema j.childTable).filter fun row =>
    row j.childColumn = r j.parentAlias j.parentColumn && row j.childColumn ≠ E.null

/-- The outer join keeps a row without partners, with nulls. -/
def extend (j : Join) (r : JoinedRow α) : List (JoinedRow α) :=
  let rows := j.partners E contents r
  if rows.isEmpty then [Function.update r j.childAlias fun _ => E.null]
  else rows.map (Function.update r j.childAlias)

def extendAll : List Join → List (JoinedRow α) → List (JoinedRow α)
  | [], rows => rows
  | j :: js, rows => extendAll js (rows.flatMap (j.extend E contents))

/-- Apart from null, no cell stands twice in the joined column of the child. -/
def FindsOne (j : Join) : Prop :=
  ∀ v ≠ E.null,
    (contents j.childSchema j.childTable).countP (fun row => row j.childColumn = v) ≤ 1

def IsOnKey (catalog : Catalog) (j : Join) : Prop :=
  ∃ child ∈ catalog.entities, child.schema = j.childSchema ∧ child.name = j.childTable ∧
    ∃ key, child.primaryKey? = some key ∧ key.name = j.childColumn

variable {E contents} {j : Join} {js : List Join} {r r' : JoinedRow α}
  {rows : List (JoinedRow α)} {aliasName : String}

theorem findsOne_of_identifies {child : Entity} {key : Column}
    (hSchema : child.schema = j.childSchema) (hTable : child.name = j.childTable)
    (hColumn : key.name = j.childColumn) (h : contents.Identifies child key) :
    j.FindsOne E contents := by
  intro v _
  have hOnce := List.nodup_iff_count_le_one.mp h v
  rw [List.count_eq_countP, List.countP_map, hSchema, hTable, hColumn] at hOnce
  exact hOnce

theorem length_partners_le (h : j.FindsOne E contents) (r : JoinedRow α) :
    (j.partners E contents r).length ≤ 1 := by
  rw [partners, ← List.countP_eq_length_filter]
  by_cases hNull : r j.parentAlias j.parentColumn = E.null
  · have hNone : ∀ row ∈ contents j.childSchema j.childTable,
        ¬(row j.childColumn = r j.parentAlias j.parentColumn &&
          row j.childColumn ≠ E.null) = true := by
      intro row _ hRow
      simp [hNull] at hRow
    rw [List.countP_eq_zero.mpr hNone]
    exact Nat.zero_le 1
  · refine (List.countP_mono_left fun row _ hRow => ?_).trans (h _ hNull)
    rw [Bool.and_eq_true] at hRow
    exact hRow.1

theorem base_of_mem_extend (hAlias : j.childAlias ≠ aliasName) (h : r' ∈ j.extend E contents r) :
    r' aliasName = r aliasName := by
  rw [extend] at h
  split at h
  · obtain rfl := List.mem_singleton.mp h
    exact Function.update_of_ne hAlias.symm _ _
  · obtain ⟨row, -, rfl⟩ := List.mem_map.mp h
    exact Function.update_of_ne hAlias.symm _ _

theorem map_base_extend (hOne : j.FindsOne E contents) (hAlias : j.childAlias ≠ aliasName)
    (r : JoinedRow α) :
    (j.extend E contents r).map (fun r => r aliasName) = [r aliasName] := by
  have hLength : (j.extend E contents r).length = 1 := by
    rw [extend]
    split
    · rfl
    · next hSome =>
      have hLe := length_partners_le hOne r
      have hPos := List.length_pos_iff.mpr (mt List.isEmpty_iff.mpr hSome)
      rw [List.length_map]
      omega
  obtain ⟨r', hExtend⟩ := List.length_eq_one_iff.mp hLength
  have hMem : r' ∈ j.extend E contents r := hExtend ▸ List.mem_singleton_self r'
  rw [hExtend, List.map_singleton, base_of_mem_extend hAlias hMem]

theorem base_of_mem_extendAll (hAliases : ∀ j ∈ js, j.childAlias ≠ aliasName)
    (h : r ∈ extendAll E contents js rows) : ∃ r' ∈ rows, r aliasName = r' aliasName := by
  induction js generalizing rows with
  | nil => exact ⟨r, h, rfl⟩
  | cons j js ih =>
    rw [List.forall_mem_cons] at hAliases
    obtain ⟨r', hMem, hLater⟩ := ih hAliases.2 h
    obtain ⟨first, hFirst, hExtend⟩ := List.mem_flatMap.mp hMem
    exact ⟨first, hFirst, hLater.trans (base_of_mem_extend hAliases.1 hExtend)⟩

/-- Joins that find at most one row each neither repeat nor lose a row. -/
theorem map_base_extendAll (hAliases : ∀ j ∈ js, j.childAlias ≠ aliasName)
    (hOnes : ∀ j ∈ js, j.FindsOne E contents) (rows : List (JoinedRow α)) :
    (extendAll E contents js rows).map (fun r => r aliasName) =
      rows.map fun r => r aliasName := by
  induction js generalizing rows with
  | nil => rfl
  | cons j js ih =>
    rw [List.forall_mem_cons] at hAliases hOnes
    rw [extendAll, ih hAliases.2 hOnes.2, List.map_flatMap, ← List.flatMap_pure_eq_map]
    exact List.flatMap_congr fun r _ => map_base_extend hOnes.1 hAliases.1 r

theorem Path.childAlias_ne {catalog : Catalog} {e : Entity} {children : List Entity}
    (h : Path catalog e children js)
    (hNodup : ((e :: children).map fun x => Text.lowercase x.name).Nodup) :
    ∀ j ∈ js, j.childAlias ≠ e.aliasName := by
  intro j hj hAlias
  obtain ⟨child, hChild, -, -, hTable⟩ := h.child_mem hj
  have hName : child.name = e.name := by
    rw [← hTable]
    exact (String.append_right_inj "t_").mp hAlias
  rw [List.map_cons, List.nodup_cons] at hNodup
  exact hNodup.1 (List.mem_map.mpr ⟨child, hChild, by rw [hName]⟩)

end Join

namespace QueryPlan

variable [DecidableEq α] (E : Engine α) (contents : Contents α)

def keeps (q : QueryPlan) (r : JoinedRow α) : Bool :=
  q.filter.all fun f =>
    f.formula.truth (fun n => f.conditions[n]?.bind fun c => E.judge c (r c.aliasName c.column)) =
      some true

/-- The rows that both statements of a list are about. -/
def selected (e : Entity) (q : QueryPlan) : List (JoinedRow α) :=
  (Join.extendAll E contents q.joins (e.rows E contents)).filter (q.keeps E)

/-- The entity is the queried one or is joined to it. -/
def Involves (e : Entity) (q : QueryPlan) (x : Entity) : Prop :=
  x = e ∨ ∃ j ∈ q.joins, x.schema = j.childSchema ∧ x.name = j.childTable

variable {E contents} {e : Entity} {q : QueryPlan} {r : JoinedRow α}

theorem base_of_mem_selected (hAliases : ∀ j ∈ q.joins, j.childAlias ≠ e.aliasName)
    (h : r ∈ q.selected E contents e) : r e.aliasName ∈ contents e.schema e.name := by
  obtain ⟨first, hFirst, hBase⟩ :=
    Join.base_of_mem_extendAll hAliases (List.mem_of_mem_filter h)
  rw [hBase, ← e.map_base_rows E contents]
  exact List.mem_map_of_mem hFirst

/-- Where the includes find at most one row each, no row of the entity is selected twice. -/
theorem nodup_base_selected {key : Column} (hKey : contents.Identifies e key)
    (hAliases : ∀ j ∈ q.joins, j.childAlias ≠ e.aliasName)
    (hOnes : ∀ j ∈ q.joins, j.FindsOne E contents) :
    ((q.selected E contents e).map fun r => r e.aliasName).Nodup := by
  refine (List.Nodup.of_map _ hKey).sublist ?_
  rw [← e.map_base_rows E contents,
    ← Join.map_base_extendAll hAliases hOnes (e.rows E contents)]
  exact List.filter_sublist.map _

end QueryPlan

end TableGateway
