import TableGateway.Audit.Log
import TableGateway.Catalog.Validation
import TableGateway.Proofs.Filter.Acceptance
import TableGateway.Proofs.Sql.Binding

/-!
# Placeholders and parameters correspond

For each request its statements are bound, and what is bound comes from the request: the literals
of the filter as they are written, the members of the body, and the id.
-/

namespace TableGateway

open Draft

variable {d : Dialect} {e : Entity} {id : String}

namespace Entity

theorem eq_of_hasOneKey {key c : Column} (h : e.hasOneKey = true) (hKey : e.primaryKey? = some key)
    (hMem : c ∈ e.columns) (hPrimary : c.primaryKey = true) : c = key := by
  have hOther : c ∈ e.columns.filter Column.primaryKey := List.mem_filter.mpr ⟨hMem, hPrimary⟩
  have hFew : (e.columns.filter Column.primaryKey).length ≤ 1 := of_decide_eq_true h
  obtain ⟨rest, hKeys⟩ := List.head?_eq_some_iff.mp (List.head?_filter.trans hKey)
  rw [hKeys, List.length_cons] at hFew
  rw [hKeys, List.eq_nil_of_length_eq_zero (Nat.le_zero.mp (Nat.le_of_succ_le_succ hFew))] at hOther
  exact List.mem_singleton.mp hOther

end Entity

namespace QueryPlan

/-- The literals of a compiled query are those that its filter is written with. -/
theorem compile_filter {catalog : Catalog} {limits : PagingLimits} {o : QueryOptions}
    {q : QueryPlan} (h : compile catalog e limits o = .ok q) :
    ∃ (ls : List Lexeme) (pieces : List (List Lexeme × Condition)),
      Lexeme.Cuts (o.filter.getD "").toList ls ∧ Grammar.Occur (pieces.map Prod.fst) ls ∧
      (∀ p ∈ pieces, Filter.Written e p.1 p.2) ∧
      Statement.meantBy d q.filter = pieces.flatMap fun p => p.2.meant d := by
  have hFilter : o.filter.mapM (Filter.compile e) = .ok q.filter := by
    obtain ⟨js, -, h⟩ := Outcome.bind_eq_ok_iff.mp h
    obtain ⟨fields, -, h⟩ := Outcome.bind_eq_ok_iff.mp h
    obtain ⟨filter, hFilter, h⟩ := Outcome.bind_eq_ok_iff.mp h
    obtain ⟨sort, -, h⟩ := Outcome.bind_eq_ok_iff.mp h
    cases h
    exact Outcome.mapError_eq_ok_iff.mp hFilter
  cases hRaw : o.filter with
  | none =>
    rw [hRaw] at hFilter
    have hNone : q.filter = none := (Except.ok.inj hFilter).symm
    exact ⟨[], [], .nil, .nil [], by simp, by rw [hNone]; rfl⟩
  | some raw =>
    rw [hRaw] at hFilter
    obtain ⟨f, hCompile, hSome⟩ := Outcome.map_eq_ok_iff.mp hFilter
    obtain ⟨ls, pieces, hCuts, hOccur, hWritten, hConditions⟩ := Filter.conditions_occur hCompile
    refine ⟨ls, pieces, hCuts, hOccur, hWritten, ?_⟩
    rw [← hSome, Statement.meantBy, Option.toList_some, List.flatMap_singleton, Filter.meant,
      hConditions, List.flatMap_map]

end QueryPlan

namespace Statement

theorem read_binds {q : QueryPlan} {s : Statement} (h : read d e q id = .ok s) :
    ∃ key v, e.primaryKey? = some key ∧ BoundValue.ofText key id = .ok v ∧
      s.Binds [(.compared key.name, v)] := by
  obtain ⟨key, v, hKey, hText, rfl⟩ := read_eq_ok h
  exact ⟨key, v, hKey, hText, binds_rowRead e q key v⟩

end Statement

namespace Mutation

theorem binds_insertedKey (key : Column) (assignments : List Assignment) :
    (rowByKey d e key (insertedKey d key assignments)).Binds
      ((suppliedKey? assignments).toList.map fun a => (.compared key.name, a.value)) := by
  have hNames : Landmark.Brings true [.name key.name] [] := Landmark.brings_of_names (by simp)
  rw [insertedKey_eq]
  cases suppliedKey? assignments with
  | some a => exact binds_rowByKey_value key a.value
  | none =>
    cases d with
    | mysql =>
      have hLegible : Legible .mysql (.keyword .lastInsertId :: enclosed []) := by
        simp [enclosed, legible_cons_cons, Apart, Part.isSeparator, Part.isReadable]
      exact binds_rowByKey hLegible hNames
    | postgres | sqlite | sqlServer =>
      exact binds_rowByKey (legible_singleton.mpr rfl) hNames

theorem insert_binds {body : List (String × Json)} {m : Mutation} (h : insert d e body = .ok m) :
    ∃ assignments,
      List.Forall₂ (Assignment.Stores e true)
        (body.filter fun member => (e.assigned? true member.1).isSome) assignments ∧
      m.statement.Binds (assignments.map Assignment.meant) ∧
      ∀ s ∈ m.selectBack, ∃ key, e.primaryKey? = some key ∧
        (e.hasOneKey = true → ∀ a ∈ assignments, a.column.primaryKey = true → a.column = key) ∧
        s.Binds ((suppliedKey? assignments).toList.map fun a => (.compared key.name, a.value)) := by
  obtain ⟨assignments, hMembers, rfl⟩ := insert_eq_ok h
  obtain ⟨-, hStored⟩ := Assignment.ofMembers_eq_ok_iff.mp hMembers
  refine ⟨assignments, hStored, binds_insertion d e assignments, fun s hs => ?_⟩
  rw [selectBack_insertion, Option.mem_def, Option.ite_none_right_eq_some] at hs
  obtain ⟨-, hs⟩ := hs
  obtain ⟨key, hKey, rfl⟩ := Option.map_eq_some_iff.mp hs
  refine ⟨key, hKey, fun hOne a ha hPrimary => ?_, binds_insertedKey key assignments⟩
  exact Entity.eq_of_hasOneKey hOne hKey (Assignment.column_mem hMembers ha) hPrimary

theorem update_binds {members : List (String × Json)} {m : Mutation}
    (h : update d e id members = .ok m) :
    ∃ key v assignments, e.primaryKey? = some key ∧ BoundValue.ofText key id = .ok v ∧
      List.Forall₂ (Assignment.Stores e false)
        (members.filter fun member => (e.assigned? false member.1).isSome) assignments ∧
      m.statement.Binds (assignments.map Assignment.meant ++ [(.compared key.name, v)]) ∧
      ∀ s ∈ m.selectBack, s.Binds [(.compared key.name, v)] := by
  obtain ⟨key, v, assignments, hKey, hText, hMembers, rfl⟩ := update_eq_ok h
  obtain ⟨-, hStored⟩ := Assignment.ofMembers_eq_ok_iff.mp hMembers
  refine ⟨key, v, assignments, hKey, hText, hStored, ?_⟩
  cases assignments with
  | nil => exact ⟨binds_rowByKey_value key v, nofun⟩
  | cons a as =>
    refine ⟨binds_rowUpdate d e key v (a :: as), fun s hs => ?_⟩
    change s ∈ (rowUpdate d e key v (a :: as)).selectBack at hs
    rw [selectBack_rowUpdate, Option.mem_def, Option.ite_none_right_eq_some] at hs
    obtain ⟨-, hs⟩ := hs
    exact Option.some.inj hs ▸ binds_rowByKey_value key v

theorem delete_binds {s : Statement} (h : delete d e id = .ok s) :
    ∃ key v, e.primaryKey? = some key ∧ BoundValue.ofText key id = .ok v ∧
      s.Binds [(.compared key.name, v)] := by
  obtain ⟨key, v, hKey, hText, rfl⟩ := delete_eq_ok h
  exact ⟨key, v, hKey, hText, binds_rowDeletion d e key v⟩

end Mutation

namespace AuditTable

theorem insert_binds (t : AuditTable) (d : Dialect) (event : AuditEvent) :
    (t.insert d event).Binds
      ((record event).map fun (name, v, _) => (.assigned name, v)) := by
  have hTable : Naming d (d.table t.schema t.table) := Dialect.naming_table t.schema t.table
  have hClauses : ∀ a ∈ ([] ++ [] : List Draft), Naming d a := by simp
  exact Statement.binds_insertion
    ((record event).map fun (name, v, type) => (name, v, some type)) hTable hClauses

end AuditTable

/-- Whatever is requested of whatever entity, each placeholder has the value that is meant there. -/
theorem placeholders_correspond (d : Dialect) (e : Entity) :
    (∀ q, (Statement.list d e q).select.Binds (Statement.meantBy d q.filter) ∧
      (Statement.list d e q).count.Binds (Statement.meantBy d q.filter)) ∧
    (∀ catalog limits o q, QueryPlan.compile catalog e limits o = .ok q →
      ∃ (ls : List Lexeme) (pieces : List (List Lexeme × Condition)),
        Lexeme.Cuts (o.filter.getD "").toList ls ∧ Grammar.Occur (pieces.map Prod.fst) ls ∧
        (∀ p ∈ pieces, Filter.Written e p.1 p.2) ∧
        Statement.meantBy d q.filter = pieces.flatMap fun p => p.2.meant d) ∧
    (∀ q id s, Statement.read d e q id = .ok s →
      ∃ key v, e.primaryKey? = some key ∧ BoundValue.ofText key id = .ok v ∧
        s.Binds [(.compared key.name, v)]) ∧
    (∀ body m, Mutation.insert d e body = .ok m →
      ∃ assignments,
        List.Forall₂ (Assignment.Stores e true)
          (body.filter fun member => (e.assigned? true member.1).isSome) assignments ∧
        m.statement.Binds (assignments.map Assignment.meant) ∧
        ∀ s ∈ m.selectBack, ∃ key, e.primaryKey? = some key ∧
          (e.hasOneKey = true → ∀ a ∈ assignments, a.column.primaryKey = true → a.column = key) ∧
          s.Binds ((Mutation.suppliedKey? assignments).toList.map fun a =>
            (.compared key.name, a.value))) ∧
    (∀ id members m, Mutation.update d e id members = .ok m →
      ∃ key v assignments, e.primaryKey? = some key ∧ BoundValue.ofText key id = .ok v ∧
        List.Forall₂ (Assignment.Stores e false)
          (members.filter fun member => (e.assigned? false member.1).isSome) assignments ∧
        m.statement.Binds (assignments.map Assignment.meant ++ [(.compared key.name, v)]) ∧
        ∀ s ∈ m.selectBack, s.Binds [(.compared key.name, v)]) ∧
    (∀ id s, Mutation.delete d e id = .ok s →
      ∃ key v, e.primaryKey? = some key ∧ BoundValue.ofText key id = .ok v ∧
        s.Binds [(.compared key.name, v)]) ∧
    ∀ (t : AuditTable) (event : AuditEvent), (t.insert d event).Binds
      [(.assigned "event_date", .instant event.date),
        (.assigned "http_method", .int event.method.code),
        (.assigned "domain", .text (AuditTable.cut event.domain)),
        (.assigned "entity", .text (AuditTable.cut event.entity)),
        (.assigned "id", .text (AuditTable.cut event.id)),
        (.assigned "status", .int event.status), (.assigned "patch", .text event.patch)] := by
  refine ⟨fun q => Statement.binds_list d e q, ?_, ?_, ?_, ?_, ?_, ?_⟩
  · intro catalog limits o q h
    exact QueryPlan.compile_filter h
  · intro q id s h
    exact Statement.read_binds h
  · intro body m h
    exact Mutation.insert_binds h
  · intro id members m h
    exact Mutation.update_binds h
  · intro id s h
    exact Mutation.delete_binds h
  · intro t event
    exact AuditTable.insert_binds t d event

theorem compile_sampleText :
    QueryPlan.compile ⟨[]⟩ Filter.sampleEntity {}
        { filter := some "(name EQ x Or code eq Null) AND name ct 'and'" } =
      .ok ⟨some Filter.sampleFilter, [], [.wildcard "t_items"], [], ⟨25, 0⟩⟩ := by
  have hFields : SelectItem.compile ⟨[]⟩ Filter.sampleEntity [] "*" =
      .ok [.wildcard "t_items"] := rfl
  have hFilter : (some "(name EQ x Or code eq Null) AND name ct 'and'").mapM
      (Filter.compile Filter.sampleEntity) = .ok (some Filter.sampleFilter) :=
    Outcome.map_eq_ok_iff.mpr ⟨_, Filter.compile_sampleFilter, rfl⟩
  refine Outcome.bind_eq_ok_iff.mpr ⟨[], rfl, ?_⟩
  refine Outcome.bind_eq_ok_iff.mpr ⟨_, Outcome.mapError_eq_ok_iff.mpr hFields, ?_⟩
  refine Outcome.bind_eq_ok_iff.mpr ⟨_, Outcome.mapError_eq_ok_iff.mpr hFilter, ?_⟩
  exact Outcome.bind_eq_ok_iff.mpr ⟨[], rfl, rfl⟩

/-- Rows of the sample entity are listed, read, inserted, changed and deleted. -/
theorem sampleEntity_corresponds :
    (∃ (q : QueryPlan) (pieces : List (List Lexeme × Condition)),
      (Statement.list .postgres Filter.sampleEntity q).select.Binds
        [(.compared "Name", .text "x"), (.compared "Name", .text "%and%")] ∧
      (∀ p ∈ pieces, Filter.Written Filter.sampleEntity p.1 p.2) ∧
      Statement.meantBy .postgres q.filter = pieces.flatMap fun p => p.2.meant .postgres) ∧
    (∃ s, Statement.read .sqlite Filter.sampleEntity ⟨none, [], [], [], ⟨1, 0⟩⟩ "a" = .ok s ∧
      s.Binds [(.compared "Code", .text "a")]) ∧
    (∃ m, Mutation.insert .mysql Filter.sampleEntity [("code", .text "a")] = .ok m ∧
      m.statement.Binds [(.assigned "Code", .text "a")] ∧
      ∃ s ∈ m.selectBack, s.Binds [(.compared "Code", .text "a")]) ∧
    (∃ m, Mutation.update .postgres Filter.sampleEntity "a" [("NAME", .text "b")] = .ok m ∧
      m.statement.Binds [(.assigned "Name", .text "b"), (.compared "Code", .text "a")]) ∧
    ∃ s, Mutation.delete .sqlServer Filter.sampleEntity "a" = .ok s ∧
      s.Binds [(.compared "Code", .text "a")] := by
  refine ⟨?_, ⟨_, rfl, ?_⟩, ⟨_, rfl, ?_⟩, ⟨_, rfl, ?_⟩, _, rfl, ?_⟩
  · obtain ⟨hList, hWritten, -⟩ := placeholders_correspond .postgres Filter.sampleEntity
    obtain ⟨ls, pieces, -, -, hPieces, hMeant⟩ := hWritten _ _ _ _ compile_sampleText
    exact ⟨_, pieces, (hList _).1, hPieces, hMeant⟩
  · obtain ⟨key, v, hKey, hText, hBinds⟩ :=
      (placeholders_correspond .sqlite Filter.sampleEntity).2.2.1 _ "a" _ rfl
    cases hKey
    cases hText
    exact hBinds
  · obtain ⟨assignments, hStored, hBinds, hBack⟩ :=
      (placeholders_correspond .mysql Filter.sampleEntity).2.2.2.1 [("code", .text "a")] _ rfl
    change List.Forall₂ _ [("code", Json.text "a")] assignments at hStored
    cases hStored with
    | @cons _ a _ _ hFirst hNone =>
      obtain ⟨column, v⟩ := a
      cases hNone
      cases hFirst.column
      cases hFirst.value
      obtain ⟨key, hKey, -, hKeyBinds⟩ := hBack _ rfl
      cases hKey
      exact ⟨hBinds, _, rfl, hKeyBinds⟩
  · obtain ⟨key, v, assignments, hKey, hText, hStored, hBinds, -⟩ :=
      (placeholders_correspond .postgres Filter.sampleEntity).2.2.2.2.1 "a" [("NAME", .text "b")]
        _ rfl
    change List.Forall₂ _ [("NAME", Json.text "b")] assignments at hStored
    cases hKey
    cases hText
    cases hStored with
    | @cons _ a _ _ hFirst hNone =>
      obtain ⟨column, v⟩ := a
      cases hNone
      cases hFirst.column
      cases hFirst.value
      exact hBinds
  · obtain ⟨key, v, hKey, hText, hBinds⟩ :=
      (placeholders_correspond .sqlServer Filter.sampleEntity).2.2.2.2.2.1 "a" _ rfl
    cases hKey
    cases hText
    exact hBinds

end TableGateway
