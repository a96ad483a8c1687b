import TableGateway.Proofs.Filter.Acceptance
import TableGateway.Proofs.Sql.Erasure
import TableGateway.Proofs.Sql.Request

/-!
# Values never reach texts

Requests that differ in their values only have the same texts. A value decides at most whether a
request fails.
-/

namespace TableGateway

open Draft

variable {d : Dialect} {e : Entity} {id id' : String} {as bs : List Assignment}

namespace Assignment

/-- What reads the columns only is the same for the same columns. -/
theorem map_eq_of_columns {β : Type} {f : Assignment → β} {g : Column → β}
    (hFactor : ∀ a, f a = g a.column) (h : as.map column = bs.map column) :
    as.map f = bs.map f := by
  have hMap (cs : List Assignment) : cs.map f = (cs.map column).map g := by
    rw [List.map_map]
    exact List.map_congr_left fun a _ => hFactor a
  rw [hMap, hMap, h]

theorem map_columnName (h : as.map column = bs.map column) :
    as.map columnName = bs.map columnName :=
  map_eq_of_columns (g := fun c => [.name c.name]) (fun _ => rfl) h

theorem erased_placeholders (h : as.map column = bs.map column) :
    (as.map placeholder).map erased = (bs.map placeholder).map erased := by
  rw [List.map_map, List.map_map]
  exact map_eq_of_columns (g := fun c => [.value c.name .null (some c.type)]) (fun _ => rfl) h

theorem erased_equations (h : as.map column = bs.map column) :
    (as.map equation).map erased = (bs.map equation).map erased := by
  rw [List.map_map, List.map_map]
  exact map_eq_of_columns
    (g := fun c => equals [.name c.name] [.value c.name .null (some c.type)])
    (fun _ => erased_equals _ _) h

theorem map_column_congr {withKey : Bool} {members members' : List (String × Json)}
    (hNames : (members.map fun member => e.column? member.1) =
      (members'.map fun member => e.column? member.1))
    (h : ofMembers e withKey members = .ok as) (h' : ofMembers e withKey members' = .ok bs) :
    as.map column = bs.map column := by
  rw [map_column_eq h, map_column_eq h', hNames]

end Assignment

namespace Mutation

theorem text_rowByKey {column : Column} {key key' : Draft} (h : key.erased = key'.erased) :
    (rowByKey d e column key).text = (rowByKey d e column key').text := by
  refine toText_eq ?_
  simp only [rowByKey, erased_spaced, List.map_cons, erased_equals, h]

theorem erased_insertedKey (key : Column)
    (h : as.map Assignment.column = bs.map Assignment.column) :
    (insertedKey d key as).erased = (insertedKey d key bs).erased := by
  have hSupplied (cs : List Assignment) : (suppliedKey? cs).map Assignment.column =
      ((cs.map Assignment.column).filter Column.primaryKey).getLast? := by
    rw [suppliedKey?, List.filter_map, List.getLast?_map]
    rfl
  have hBoth :
      (suppliedKey? as).map Assignment.column = (suppliedKey? bs).map Assignment.column := by
    rw [hSupplied, hSupplied, h]
  rw [insertedKey_eq, insertedKey_eq]
  cases hAs : suppliedKey? as with
  | none =>
    cases hBs : suppliedKey? bs with
    | none => rfl
    | some b => simp [hAs, hBs] at hBoth
  | some a =>
    cases hBs : suppliedKey? bs with
    | none => simp [hAs, hBs] at hBoth
    | some b => rfl

theorem erased_insertedValues (h : as.map Assignment.column = bs.map Assignment.column) :
    (insertedValues d as).1.map erased = (insertedValues d bs).1.map erased ∧
      (insertedValues d as).2.map erased = (insertedValues d bs).2.map erased := by
  have hEmpty : as.isEmpty = bs.isEmpty := by
    simpa using congrArg List.isEmpty h
  rw [insertedValues, insertedValues, hEmpty]
  split
  · exact ⟨rfl, rfl⟩
  · simp only [List.map_cons, List.map_nil, erased_enclosed, erased_listed,
      Assignment.map_columnName h, Assignment.erased_placeholders h, and_self]

/-- The same texts, also of what selects the row afterwards. -/
structure SameTexts (m m' : Mutation) : Prop where
  statement : m.statement.text = m'.statement.text
  selectBack : m.selectBack.map Statement.text = m'.selectBack.map Statement.text

theorem sameTexts_insertion (h : as.map Assignment.column = bs.map Assignment.column) :
    SameTexts (insertion d e as) (insertion d e bs) where
  statement := by
    obtain ⟨hBefore, hAfter⟩ := erased_insertedValues (d := d) h
    rw [insertion, insertion]
    cases hReturn : d.rowReturn e.columns with
    | suffix | output | selectBack =>
      refine toText_eq ?_
      simp only [erased_spaced, List.map_append, hBefore, hAfter]
  selectBack := by
    rw [selectBack_insertion, selectBack_insertion]
    split
    · cases e.primaryKey? with
      | none => rfl
      | some key => exact congrArg some (text_rowByKey (erased_insertedKey key h))
    · rfl

theorem sameTexts_rowUpdate (column : Column) (v v' : BoundValue)
    (h : as.map Assignment.column = bs.map Assignment.column) :
    SameTexts (rowUpdate d e column v as) (rowUpdate d e column v' bs) where
  statement := by
    have hKey : (keyPlaceholder column v).erased = (keyPlaceholder column v').erased := rfl
    rw [rowUpdate, rowUpdate]
    cases hReturn : d.rowReturn e.columns with
    | suffix | output | selectBack =>
      refine toText_eq ?_
      simp only [erased_spaced, List.map_append, List.map_cons, erased_listed, erased_equals,
        Assignment.erased_equations h, hKey]
  selectBack := by
    rw [selectBack_rowUpdate, selectBack_rowUpdate]
    split
    · exact congrArg some (text_rowByKey rfl)
    · rfl

end Mutation

/-- Two requests that differ in their literals, in the values of their members or in their ids have
the same texts. -/
theorem values_never_reach_texts (d : Dialect) (e : Entity) :
    (∀ q q' : QueryPlan, q.Alike q' →
      (Statement.list d e q).select.text = (Statement.list d e q').select.text ∧
        (Statement.list d e q).count.text = (Statement.list d e q').count.text) ∧
    (∀ (body body' : List (String × Json)) (m m' : Mutation),
      (body.map fun member => e.column? member.1) = (body'.map fun member => e.column? member.1) →
      Mutation.insert d e body = .ok m → Mutation.insert d e body' = .ok m' →
      Mutation.SameTexts m m') ∧
    (∀ (id id' : String) (members members' : List (String × Json)) (m m' : Mutation),
      (members.map fun member => e.column? member.1) =
        (members'.map fun member => e.column? member.1) →
      Mutation.update d e id members = .ok m → Mutation.update d e id' members' = .ok m' →
      Mutation.SameTexts m m') ∧
    (∀ q id id' s s', Statement.read d e q id = .ok s → Statement.read d e q id' = .ok s' →
      s.text = s'.text) ∧
    ∀ id id' s s', Mutation.delete d e id = .ok s → Mutation.delete d e id' = .ok s' →
      s.text = s'.text := by
  refine ⟨fun q q' h => Statement.list_text_eq h, ?_, ?_, ?_, ?_⟩
  · intro body body' m m' hNames h h'
    obtain ⟨as, hAs, rfl⟩ := Mutation.insert_eq_ok h
    obtain ⟨bs, hBs, rfl⟩ := Mutation.insert_eq_ok h'
    exact Mutation.sameTexts_insertion (Assignment.map_column_congr hNames hAs hBs)
  · intro id id' members members' m m' hNames h h'
    obtain ⟨key, v, as, hKey, -, hAs, rfl⟩ := Mutation.update_eq_ok h
    obtain ⟨key', v', bs, hKey', -, hBs, rfl⟩ := Mutation.update_eq_ok h'
    cases hKey.symm.trans hKey'
    have hColumns := Assignment.map_column_congr hNames hAs hBs
    have hEmpty : as.isEmpty = bs.isEmpty := by
      simpa using congrArg List.isEmpty hColumns
    rw [hEmpty]
    split
    · exact ⟨Mutation.text_rowByKey rfl, rfl⟩
    · exact Mutation.sameTexts_rowUpdate key v v' hColumns
  · intro q id id' s s' h h'
    obtain ⟨key, v, hKey, -, rfl⟩ := Statement.read_eq_ok h
    obtain ⟨key', v', hKey', -, rfl⟩ := Statement.read_eq_ok h'
    cases hKey.symm.trans hKey'
    refine toText_eq ?_
    simp only [Statement.rowRead, erased_spaced, List.map_cons, erased_equals]
    rfl
  · intro id id' s s' h h'
    obtain ⟨key, v, hKey, -, rfl⟩ := Mutation.delete_eq_ok h
    obtain ⟨key', v', hKey', -, rfl⟩ := Mutation.delete_eq_ok h'
    cases hKey.symm.trans hKey'
    refine toText_eq ?_
    simp only [Mutation.rowDeletion, erased_spaced, List.map_cons, erased_equals]
    rfl

def sampleQuery (name : String) : QueryPlan where
  filter := some (.condition ⟨"t_items", "Name", .text, .eq, .single (.text name)⟩)
  sort := []
  fields := []
  joins := []
  paging := ⟨1, 0⟩

theorem sampleEntity_texts :
    ((Statement.list .mysql Filter.sampleEntity (sampleQuery "x")).select.text =
      (Statement.list .mysql Filter.sampleEntity (sampleQuery "';--")).select.text) ∧
    (∃ m m', Mutation.insert .mysql Filter.sampleEntity [("code", .text "a")] = .ok m ∧
      Mutation.insert .mysql Filter.sampleEntity [("code", .null)] = .ok m' ∧
      Mutation.SameTexts m m') ∧
    (∃ m m', Mutation.update .mysql Filter.sampleEntity "a" [("NAME", .text "b")] = .ok m ∧
      Mutation.update .mysql Filter.sampleEntity "c" [("name", .null)] = .ok m' ∧
      Mutation.SameTexts m m') ∧
    (∃ s s', Statement.read .mysql Filter.sampleEntity (sampleQuery "x") "a" = .ok s ∧
      Statement.read .mysql Filter.sampleEntity (sampleQuery "x") "c" = .ok s' ∧
      s.text = s'.text) ∧
    ∃ s s', Mutation.delete .mysql Filter.sampleEntity "a" = .ok s ∧
      Mutation.delete .mysql Filter.sampleEntity "c" = .ok s' ∧ s.text = s'.text := by
  obtain ⟨hList, hInsert, hUpdate, hRead, hDelete⟩ :=
    values_never_reach_texts .mysql Filter.sampleEntity
  refine ⟨?_, ?_, ?_, ?_, ?_⟩
  · exact (hList _ _ ⟨.some (.condition (.single (by simp))), rfl, rfl, rfl, rfl⟩).1
  · exact ⟨_, _, rfl, rfl, hInsert [("code", .text "a")] [("code", .null)] _ _ rfl rfl rfl⟩
  · exact ⟨_, _, rfl, rfl,
      hUpdate "a" "c" [("NAME", .text "b")] [("name", .null)] _ _ rfl rfl rfl⟩
  · exact ⟨_, _, rfl, rfl, hRead _ "a" "c" _ _ rfl rfl⟩
  · exact ⟨_, _, rfl, rfl, hDelete "a" "c" _ _ rfl rfl⟩

end TableGateway
