import Mathlib.Data.List.Forall2
import TableGateway.Proofs.Outcome
import TableGateway.Sql.Mutation

/-!
# What requests bring

An id is the value of the primary key. A member of a body is assigned to the column of its name,
unless the column is generated or is a key that stays as it is; the names of the members alone
decide which columns are assigned.
-/

namespace TableGateway

variable {d : Dialect} {e : Entity} {id : String}

theorem Entity.requireKey_eq_ok_iff {key : Column} :
    e.requireKey = .ok key ↔ e.primaryKey? = some key := by
  rw [Entity.requireKey]
  cases e.primaryKey? <;> simp

theorem Entity.keyValue_eq_ok_iff {key : Column} {v : BoundValue} :
    e.keyValue id = .ok (key, v) ↔
      e.primaryKey? = some key ∧ BoundValue.ofText key id = .ok v := by
  rw [Entity.keyValue, Outcome.bind_eq_ok_iff]
  constructor
  · rintro ⟨c, hKey, hRest⟩
    obtain ⟨w, hText, hPair⟩ := Outcome.bind_eq_ok_iff.mp hRest
    cases hPair
    exact ⟨Entity.requireKey_eq_ok_iff.mp hKey, Outcome.mapError_eq_ok_iff.mp hText⟩
  · rintro ⟨hKey, hText⟩
    have hValue := (Outcome.mapError_eq_ok_iff (f := StatementError.query)).mpr hText
    exact ⟨key, Entity.requireKey_eq_ok_iff.mpr hKey, Outcome.bind_eq_ok_iff.mpr ⟨v, hValue, rfl⟩⟩

/-- The column that a member of this name is assigned to. -/
def Entity.assigned? (e : Entity) (withKey : Bool) (name : String) : Option Column :=
  (e.column? name).filter fun c => !(c.isGenerated || (!withKey && c.primaryKey))

namespace Assignment

variable {withKey : Bool} {members : List (String × Json)}
  {assignments : List Assignment}

structure Stores (e : Entity) (withKey : Bool) (m : String × Json) (a : Assignment) : Prop where
  column : e.assigned? withKey m.1 = some a.column
  value : BoundValue.ofJson a.column m.2 = .ok a.value

theorem ofMember_eq_ok_iff {name : String} {j : Json} {r : Option Assignment} :
    ofMember e withKey name j = .ok r ↔
      (e.column? name).isSome ∧
        ((e.assigned? withKey name = none ∧ r = none) ∨
          ∃ a, Stores e withKey (name, j) a ∧ r = some a) := by
  rw [ofMember]
  cases hColumn : e.column? name with
  | none => simp
  | some c =>
    rw [Option.isSome_some, eq_self, true_and]
    change (if (c.isGenerated || (!withKey && c.primaryKey)) = true then _ else _) = _ ↔ _
    have hFilter : e.assigned? withKey name =
        if c.isGenerated || (!withKey && c.primaryKey) then none else some c := by
      rw [Entity.assigned?, hColumn, Option.filter_some]
      cases c.isGenerated || (!withKey && c.primaryKey) <;> rfl
    split
    · next hSkipped =>
      rw [if_pos hSkipped] at hFilter
      constructor
      · rintro ⟨⟩
        exact .inl ⟨hFilter, rfl⟩
      · rintro (⟨-, rfl⟩ | ⟨a, hStores, -⟩)
        · rfl
        · exact absurd (hFilter.symm.trans hStores.column) nofun
    · next hAssigned =>
      rw [if_neg hAssigned] at hFilter
      rw [Outcome.map_eq_ok_iff]
      constructor
      · rintro ⟨v, hValue, rfl⟩
        exact .inr ⟨⟨c, v⟩, ⟨hFilter, hValue⟩, rfl⟩
      · rintro (⟨hNone, -⟩ | ⟨⟨c', v⟩, ⟨hColumn', hValue⟩, rfl⟩)
        · exact absurd (hNone.symm.trans hFilter) nofun
        · cases hFilter.symm.trans hColumn'
          exact ⟨v, hValue, rfl⟩

/-- Every member names a column, and those that are assigned are assigned in their order. -/
theorem ofMembers_eq_ok_iff :
    ofMembers e withKey members = .ok assignments ↔
      (∀ m ∈ members, (e.column? m.1).isSome) ∧
        List.Forall₂ (Stores e withKey)
          (members.filter fun m => (e.assigned? withKey m.1).isSome) assignments := by
  induction members generalizing assignments with
  | nil =>
    constructor
    · rintro ⟨⟩
      exact ⟨by simp, .nil⟩
    · rintro ⟨-, hStored⟩
      cases hStored
      rfl
  | cons m members ih =>
    obtain ⟨name, j⟩ := m
    rw [ofMembers, Outcome.bind_eq_ok_iff, List.forall_mem_cons]
    constructor
    · rintro ⟨r, hFirst, hRest⟩
      obtain ⟨others, hOthers, hAll⟩ := Outcome.bind_eq_ok_iff.mp hRest
      cases hAll
      obtain ⟨hKnown, hFirst⟩ := ofMember_eq_ok_iff.mp hFirst
      obtain ⟨hOthersKnown, hOthers⟩ := ih.mp hOthers
      refine ⟨⟨hKnown, hOthersKnown⟩, ?_⟩
      rcases hFirst with ⟨hNone, rfl⟩ | ⟨a, hStores, rfl⟩
      · rw [List.filter_cons_of_neg (by simp [hNone])]
        exact hOthers
      · rw [List.filter_cons_of_pos (by simp [hStores.column])]
        exact .cons hStores hOthers
    · rintro ⟨⟨hKnown, hOthersKnown⟩, hAll⟩
      cases hAssigned : e.assigned? withKey name with
      | none =>
        rw [List.filter_cons_of_neg (by simp [hAssigned])] at hAll
        have hFirst := ofMember_eq_ok_iff (j := j) |>.mpr ⟨hKnown, .inl ⟨hAssigned, rfl⟩⟩
        have hOthers := ih.mpr ⟨hOthersKnown, hAll⟩
        exact ⟨none, hFirst, Outcome.bind_eq_ok_iff.mpr ⟨assignments, hOthers, rfl⟩⟩
      | some c =>
        rw [List.filter_cons_of_pos (by simp [hAssigned])] at hAll
        cases hAll with
        | @cons _ a _ others hStores hOthers =>
          have hFirst := ofMember_eq_ok_iff.mpr ⟨hKnown, .inr ⟨a, hStores, rfl⟩⟩
          have hOthers := ih.mpr ⟨hOthersKnown, hOthers⟩
          exact ⟨some a, hFirst, Outcome.bind_eq_ok_iff.mpr ⟨others, hOthers, rfl⟩⟩

theorem map_column_eq_filterMap (h : ofMembers e withKey members = .ok assignments) :
    assignments.map column = members.filterMap fun m => e.assigned? withKey m.1 := by
  obtain ⟨-, hStored⟩ := ofMembers_eq_ok_iff.mp h
  clear h
  induction members generalizing assignments with
  | nil =>
    cases hStored
    rfl
  | cons m members ih =>
    cases hColumn : e.assigned? withKey m.1 with
    | none =>
      rw [List.filter_cons_of_neg (by simp [hColumn])] at hStored
      simp only [List.filterMap_cons, hColumn, ih hStored]
    | some c =>
      rw [List.filter_cons_of_pos (by simp [hColumn])] at hStored
      cases hStored with
      | cons hFirst hOthers =>
        simp only [List.filterMap_cons, List.map_cons, hFirst.column, ih hOthers]

theorem map_column_eq (h : ofMembers e withKey members = .ok assignments) :
    assignments.map column = (members.map fun m => e.column? m.1).filterMap
      (Option.filter fun c => !(c.isGenerated || (!withKey && c.primaryKey))) := by
  rw [map_column_eq_filterMap h, List.filterMap_map]
  rfl

theorem column_mem (h : ofMembers e withKey members = .ok assignments) {a : Assignment}
    (ha : a ∈ assignments) : a.column ∈ e.columns := by
  have hMem : a.column ∈ assignments.map column := List.mem_map_of_mem ha
  rw [map_column_eq h] at hMem
  obtain ⟨found, hFound, hFilter⟩ := List.mem_filterMap.mp hMem
  obtain ⟨m, -, rfl⟩ := List.mem_map.mp hFound
  exact List.mem_of_find?_eq_some (Option.filter_eq_some_iff.mp hFilter).1

end Assignment

namespace Statement

open Draft

def rowRead (d : Dialect) (e : Entity) (q : QueryPlan) (key : Column) (v : BoundValue) :
    Statement :=
  { dialect := d
    draft := spaced
      [[.keyword .SELECT], e.projection d q.fields, [.keyword .FROM], e.source d q.joins,
        [.keyword .WHERE],
        equals (columnOf e.aliasName key.name) [.value key.name v (some key.type)]] }

theorem read_eq_ok {q : QueryPlan} {s : Statement} (h : read d e q id = .ok s) :
    ∃ key v, e.primaryKey? = some key ∧ BoundValue.ofText key id = .ok v ∧
      s = rowRead d e q key v := by
  obtain ⟨⟨key, v⟩, hKey, hStatement⟩ := Outcome.bind_eq_ok_iff.mp h
  obtain ⟨hKey, hText⟩ := Entity.keyValue_eq_ok_iff.mp hKey
  exact ⟨key, v, hKey, hText, (Except.ok.inj hStatement).symm⟩

end Statement

namespace Mutation

open Draft

/-- The last of the keys that were supplied. -/
def suppliedKey? (assignments : List Assignment) : Option Assignment :=
  (assignments.filter fun a => a.column.primaryKey).getLast?

theorem insertedKey_eq (key : Column) (assignments : List Assignment) :
    insertedKey d key assignments =
      match suppliedKey? assignments with
      | some a => keyPlaceholder key a.value
      | none => d.lastKey?.getD [.keyword .NULL] :=
  rfl

theorem selectBack_insertion (d : Dialect) (e : Entity) (assignments : List Assignment) :
    (insertion d e assignments).selectBack =
      if d = .mysql then e.primaryKey?.map fun key =>
        rowByKey d e key (insertedKey d key assignments)
      else none := by
  cases d with
  | postgres | mysql | sqlite | sqlServer => rfl

theorem selectBack_rowUpdate (d : Dialect) (e : Entity) (column : Column) (key : BoundValue)
    (assignments : List Assignment) :
    (rowUpdate d e column key assignments).selectBack =
      if d = .mysql then some (rowByKey d e column (keyPlaceholder column key)) else none := by
  cases d with
  | postgres | mysql | sqlite | sqlServer => rfl

theorem insert_eq_ok {body : List (String × Json)} {m : Mutation} (h : insert d e body = .ok m) :
    ∃ assignments, Assignment.ofMembers e true body = .ok assignments ∧
      m = insertion d e assignments := by
  rw [insert] at h
  cases hMembers : Assignment.ofMembers e true body with
  | error fault => cases hMembers ▸ h
  | ok assignments =>
    rw [hMembers] at h
    exact ⟨assignments, rfl, (Except.ok.inj h).symm⟩

theorem update_eq_ok {members : List (String × Json)} {m : Mutation}
    (h : update d e id members = .ok m) :
    ∃ key v assignments, e.primaryKey? = some key ∧ BoundValue.ofText key id = .ok v ∧
      Assignment.ofMembers e false members = .ok assignments ∧
      m = if assignments.isEmpty then { statement := rowByKey d e key (keyPlaceholder key v) }
        else rowUpdate d e key v assignments := by
  obtain ⟨⟨key, v⟩, hKey, h⟩ := Outcome.bind_eq_ok_iff.mp h
  obtain ⟨assignments, hMembers, h⟩ := Outcome.bind_eq_ok_iff.mp h
  obtain ⟨hKey, hText⟩ := Entity.keyValue_eq_ok_iff.mp hKey
  refine ⟨key, v, assignments, hKey, hText, Outcome.mapError_eq_ok_iff.mp hMembers, ?_⟩
  cases assignments with
  | nil | cons => exact (Except.ok.inj h).symm

def rowDeletion (d : Dialect) (e : Entity) (key : Column) (v : BoundValue) : Statement :=
  { dialect := d
    draft := spaced
      [words [.DELETE, .FROM], e.table d, [.keyword .WHERE],
        equals [.name key.name] (keyPlaceholder key v)] }

theorem delete_eq_ok {s : Statement} (h : delete d e id = .ok s) :
    ∃ key v, e.primaryKey? = some key ∧ BoundValue.ofText key id = .ok v ∧
      s = rowDeletion d e key v := by
  obtain ⟨⟨key, v⟩, hKey, hStatement⟩ := Outcome.bind_eq_ok_iff.mp h
  obtain ⟨hKey, hText⟩ := Entity.keyValue_eq_ok_iff.mp hKey
  exact ⟨key, v, hKey, hText, (Except.ok.inj hStatement).symm⟩

end Mutation

end TableGateway
