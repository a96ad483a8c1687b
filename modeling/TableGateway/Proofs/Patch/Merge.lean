import TableGateway.Proofs.Catalog.Lookup
import TableGateway.Proofs.Sql.Effect
import TableGateway.Service.Task

/-!
# Merged operations

What an operation means for the rows of a table by itself, and what one update does for all the
operations of a part. The operations of a part come down to one value for each column, which is the
one that the last of them leaves there.
-/

namespace TableGateway

/-- What a column holds once a value is stored. One that it does not take stays as it is; a patch
is accepted with it only if another operation overwrites it. -/
def Column.cell (c : Column) (j : Json) : BoundValue :=
  (BoundValue.ofJson c j).toOption.getD (.json j)

/-- Stores a value in the column of this name. -/
def Entity.write (e : Entity) (row : Row) (set : String × Json) : Row :=
  match e.column? set.1 with
  | some c => Function.update row c.name (c.cell set.2)
  | none => row

namespace PatchOperation

/-- The name of the column, and the value that an operation leaves there. -/
def set (o : PatchOperation) : String × Json :=
  (o.segments.getD 1 "",
    match o.kind with
    | .remove => .null
    | _ => o.value.getD .null)

variable (same : BoundValue → BoundValue → Bool)

/-- Whether the id of an operation is the key of the row. -/
def addresses (e : Entity) (o : PatchOperation) (row : Row) : Bool :=
  match e.keyValue o.id with
  | .ok (key, v) => same (row key.name) v
  | .error _ => false

/-- The rows of a table after an operation by itself. -/
def apply (e : Entity) (rows : List Row) (o : PatchOperation) : List Row :=
  rows.map fun row => if o.addresses same e row then e.write row o.set else row

end PatchOperation

namespace Entity

variable {e : Entity} {row : Row} {sets : List (String × Json)}

theorem write_comm {a b : String × Json} (h : Text.sameName a.1 b.1 = false) :
    e.write (e.write row a) b = e.write (e.write row b) a := by
  rw [Entity.write, Entity.write, Entity.write, Entity.write]
  cases hFirst : e.column? a.1 with
  | none => rfl
  | some c =>
    cases hSecond : e.column? b.1 with
    | none => rfl
    | some c' =>
      have hNe : c.name ≠ c'.name := by
        intro hEq
        have hFolded := (folded_of_column? hFirst).symm.trans
          ((congrArg Text.folded hEq).trans (folded_of_column? hSecond))
        rw [Text.sameName_eq_true_iff.mpr hFolded] at h
        cases h
      exact Function.update_comm hNe _ _ _

theorem write_of_sameName {name column : String} (h : Text.sameName column name = true)
    (j j' : Json) : e.write (e.write row (column, j)) (name, j') = e.write row (column, j') := by
  rw [Entity.write, Entity.write, Entity.write, e.column?_eq_of_sameName h]
  cases e.column? name with
  | none => rfl
  | some c => exact Function.update_idem _ _ _

theorem foldl_write_comm {set : String × Json}
    (h : ∀ other ∈ sets, Text.sameName other.1 set.1 = false) (row : Row) :
    sets.foldl e.write (e.write row set) = e.write (sets.foldl e.write row) set := by
  induction sets generalizing row with
  | nil => rfl
  | cons other sets ih =>
    rw [List.forall_mem_cons] at h
    rw [List.foldl_cons, List.foldl_cons, ← write_comm h.1]
    exact ih h.2 _

end Entity

namespace SubPatch

variable {e : Entity} {sets merged : List (String × Json)} {os : List PatchOperation}
  {o : PatchOperation} {row : Row}

def names (sets : List (String × Json)) (name : String) : Bool :=
  sets.any fun set => Text.sameName set.1 name

theorem names_assign (column name : String) (j : Json) (sets : List (String × Json)) :
    names (assign column j sets) name = (names sets name || Text.sameName column name) := by
  induction sets with
  | nil => simp [assign, names]
  | cons set sets ih =>
    obtain ⟨c, v⟩ := set
    rw [assign]
    split
    · next hSame =>
      have hFolded := Text.sameName_eq_true_iff.mp hSame
      have hName : Text.sameName column name = Text.sameName c name := by
        rw [Text.sameName, Text.sameName, hFolded]
      simp only [names, List.any_cons, hName]
      cases Text.sameName c name <;> simp
    · rw [names, List.any_cons]
      change (_ || names (assign column j sets) name) = _
      rw [ih, names, names, List.any_cons, Bool.or_assoc]

/-- No column is named twice. -/
def Distinct : List (String × Json) → Prop
  | [] => True
  | set :: sets => names sets set.1 = false ∧ Distinct sets

theorem Distinct.assign {column : String} {j : Json} (h : Distinct sets) :
    Distinct (assign column j sets) := by
  induction sets with
  | nil => exact ⟨rfl, trivial⟩
  | cons set sets ih =>
    obtain ⟨c, v⟩ := set
    rw [SubPatch.assign]
    split
    · exact ⟨h.1, h.2⟩
    · next hOther =>
      refine ⟨?_, ih h.2⟩
      rw [names_assign, h.1, Text.sameName_comm, Bool.eq_false_iff.mpr hOther]
      rfl

/-- A value that is assigned is written over everything that was assigned before. -/
theorem foldl_assign {column : String} {j : Json} (h : Distinct sets) (row : Row) :
    (assign column j sets).foldl e.write row = e.write (sets.foldl e.write row) (column, j) := by
  induction sets generalizing row with
  | nil => rfl
  | cons set sets ih =>
    obtain ⟨c, v⟩ := set
    rw [assign]
    split
    · next hSame =>
      have hOthers : ∀ other ∈ sets, Text.sameName other.1 column = false := by
        intro other hOther
        have hFolded := Text.sameName_eq_true_iff.mp hSame
        have hNone := List.any_eq_false.mp h.1 other hOther
        simpa [Text.sameName, hFolded] using hNone
      rw [List.foldl_cons, List.foldl_cons, ← Entity.foldl_write_comm hOthers,
        Entity.write_of_sameName hSame]
    · rw [List.foldl_cons, List.foldl_cons]
      exact ih h.2 (e.write row (c, v))

theorem set_eq {column : String} {j : Json} (hColumn : columnOf o = .ok column)
    (hValue : storedValue o = .ok j) : o.set = (column, j) := by
  have hName : o.segments.getD 1 "" = column := by
    rw [columnOf] at hColumn
    split at hColumn
    · next hSegments =>
      split at hColumn
      · cases hColumn
      · cases hColumn
        rw [hSegments]
        rfl
    · cases hColumn
  have hStored : (match o.kind with
      | .remove => Json.null
      | _ => o.value.getD .null) = j := by
    rw [storedValue] at hValue
    split at hValue
    · next hKind =>
      split at hValue
      · next hSome =>
        cases hValue
        rw [hKind, hSome]
        rfl
      · cases hValue
    · next hKind =>
      split at hValue
      · next hSome =>
        cases hValue
        rw [hKind, hSome]
        rfl
      · cases hValue
    · next hKind =>
      cases hValue
      rw [hKind]
    · cases hValue
  rw [PatchOperation.set, hName, hStored]

/-- The merged sets write what the operations write one after the other, and name their columns. -/
theorem setsInto_eq_ok (h : setsInto sets os = .ok merged) (hDistinct : Distinct sets) :
    (∀ row, merged.foldl e.write row =
      os.foldl (fun row o => e.write row o.set) (sets.foldl e.write row)) ∧
    ∀ name, names merged name =
      (names sets name || os.any fun o => Text.sameName o.set.1 name) := by
  induction os generalizing sets with
  | nil =>
    cases h
    exact ⟨fun row => rfl, fun name => (Bool.or_false _).symm⟩
  | cons o os ih =>
    obtain ⟨column, hColumn, h⟩ := Outcome.bind_eq_ok_iff.mp h
    obtain ⟨j, hValue, h⟩ := Outcome.bind_eq_ok_iff.mp h
    obtain ⟨hWrites, hNames⟩ := ih h hDistinct.assign
    have hSet := set_eq hColumn hValue
    constructor
    · intro row
      rw [hWrites, foldl_assign hDistinct, List.foldl_cons, hSet]
    · intro name
      rw [hNames, names_assign, List.any_cons, hSet, Bool.or_assoc]

end SubPatch

namespace Body

variable {e : Entity} {sets : List (String × Json)}

theorem accept_eq_ok_iff {α : Type} {x y : α} {ps : List BodyProblem} :
    accept x ps = .ok y ↔ ps = [] ∧ x = y := by
  rw [accept]
  cases ps <;> simp

/-- A set that may be stored names a column that is neither generated nor the key, and has a value
that the column takes. -/
structure Storable (e : Entity) (set : String × Json) (c : Column) : Prop where
  column : e.column? set.1 = some c
  unprotected : (c.isGenerated || c.primaryKey) = false
  value : ∃ v, BoundValue.ofJson c set.2 = .ok v

theorem setProblems_eq_nil {set : String × Json} (h : setProblems e set = []) :
    ∃ c, Storable e set c := by
  obtain ⟨hMember, hProtected⟩ := List.append_eq_nil_iff.mp h
  rw [memberProblems] at hMember
  split at hMember
  · cases hMember
  · next c hColumn =>
    rw [hColumn, Option.any_some, ite_eq_right_iff] at hProtected
    split at hMember
    · next v hValue =>
      have hUnprotected := Bool.eq_false_iff.mpr fun hTrue => nomatch hProtected hTrue
      exact ⟨c, hColumn, hUnprotected, v, hValue⟩
    · cases hMember

theorem validateSets_eq_ok (h : validateSets e sets = .ok ()) :
    ∀ set ∈ sets, ∃ c, Storable e set c := by
  intro set hSet
  have hNone := (accept_eq_ok_iff.mp h).1
  exact setProblems_eq_nil (List.flatMap_eq_nil_iff.mp hNone set hSet)

theorem Storable.assigned? {set : String × Json} {c : Column} (h : Storable e set c) :
    e.assigned? false set.1 = some c := by
  rw [Entity.assigned?, h.column, Option.filter_some, Bool.not_false, Bool.true_and,
    h.unprotected]
  rfl

theorem stores_of_storable {assignments : List Assignment}
    (h : ∀ set ∈ sets, ∃ c, Storable e set c)
    (hMembers : Assignment.ofMembers e false sets = .ok assignments) :
    List.Forall₂ (Assignment.Stores e false) sets assignments := by
  obtain ⟨-, hStored⟩ := Assignment.ofMembers_eq_ok_iff.mp hMembers
  have hAll : sets.filter (fun set => (e.assigned? false set.1).isSome) = sets := by
    rw [List.filter_eq_self]
    intro set hSet
    obtain ⟨c, hStorable⟩ := h set hSet
    rw [hStorable.assigned?]
    rfl
  rw [hAll] at hStored
  exact hStored

/-- The assignments of sets write what the sets write. -/
theorem foldl_assignments {assignments : List Assignment}
    (h : List.Forall₂ (Assignment.Stores e false) sets assignments) (row : Row) :
    assignments.foldl (fun row a => Function.update row a.column.name a.value) row =
      sets.foldl e.write row := by
  induction h generalizing row with
  | nil => rfl
  | @cons set a sets assignments hFirst _ ih =>
    have hColumn : e.column? set.1 = some a.column := (Option.filter_eq_some_iff.mp hFirst.column).1
    have hWrite : e.write row set = Function.update row a.column.name a.value := by
      rw [Entity.write, hColumn]
      simp [Column.cell, hFirst.value, Except.toOption]
    rw [List.foldl_cons, List.foldl_cons, hWrite]
    exact ih _

end Body

end TableGateway
