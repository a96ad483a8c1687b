import TableGateway.Proofs.Patch.Effect
import TableGateway.Proofs.Sql.Correspondence

/-!
# Columns that are assigned once

An insertion or an update names a column for each member that is assigned, so it names a column
twice when two of these members are spellings of one name. The merged sets of a patch never are.
-/

namespace TableGateway

def Site.assigned? : Site → Option String
  | .assigned column => some column
  | .compared _ => none

/-- The columns of the insertion or of the assignments, as the text names them. -/
def Statement.assignedColumns (s : Statement) : List String :=
  (Token.sites s.tokens).filterMap Site.assigned?

namespace Entity

/-- No two members that are assigned are spellings of one name. -/
def NamesOnce (e : Entity) (withKey : Bool) (members : List (String × Json)) : Prop :=
  members.Pairwise fun a b =>
    (e.assigned? withKey a.1).isSome = true → Text.sameName a.1 b.1 = false

variable {e : Entity} {withKey : Bool} {a b : String}

theorem column?_of_assigned? {c : Column} (h : e.assigned? withKey a = some c) :
    e.column? a = some c :=
  (Option.filter_eq_some_iff.mp h).1

theorem assigned_apart_iff :
    (∀ c, e.assigned? withKey a = some c → ∀ c', e.assigned? withKey b = some c' →
      c.name ≠ c'.name) ↔
        ((e.assigned? withKey a).isSome = true → Text.sameName a b = false) := by
  constructor
  · intro hApart hAssigned
    obtain ⟨c, hc⟩ := Option.isSome_iff_exists.mp hAssigned
    apply Bool.eq_false_iff.mpr
    intro hSame
    have hSecond : e.assigned? withKey b = some c := by
      rw [assigned?, ← e.column?_eq_of_sameName hSame]
      exact hc
    exact hApart c hc c hSecond rfl
  · intro hApart c hc c' hc' hName
    have hSame := (name_eq_iff (column?_of_assigned? hc) (column?_of_assigned? hc')).mp hName
    have hOther := hApart (by rw [hc]; rfl)
    rw [hSame] at hOther
    cases hOther

theorem nodup_assigned_iff {members : List (String × Json)} :
    ((members.filterMap fun m => e.assigned? withKey m.1).map Column.name).Nodup ↔
      e.NamesOnce withKey members := by
  rw [List.nodup_iff_pairwise_ne, List.pairwise_map, List.pairwise_filterMap, NamesOnce]
  exact List.Pairwise.iff fun _ _ => assigned_apart_iff

end Entity

namespace SubPatch

theorem distinct_iff {sets : List (String × Json)} :
    Distinct sets ↔ sets.Pairwise fun a b => Text.sameName a.1 b.1 = false := by
  induction sets with
  | nil => simp [Distinct]
  | cons set sets ih =>
    rw [Distinct, List.pairwise_cons, ih, names, List.any_eq_false]
    simp only [Text.sameName_comm, Bool.not_eq_true]

theorem distinct_setsInto {sets merged : List (String × Json)} {os : List PatchOperation}
    (h : setsInto sets os = .ok merged) (hDistinct : Distinct sets) : Distinct merged := by
  induction os generalizing sets with
  | nil =>
    cases h
    exact hDistinct
  | cons o os ih =>
    obtain ⟨column, -, h⟩ := Outcome.bind_eq_ok_iff.mp h
    obtain ⟨j, -, h⟩ := Outcome.bind_eq_ok_iff.mp h
    exact ih h hDistinct.assign

end SubPatch

namespace Mutation

variable {d : Dialect} {e : Entity} {id : String} {members : List (String × Json)} {m : Mutation}

theorem assignedColumns_of_binds {s : Statement} {assignments : List Assignment}
    {more : List (Site × BoundValue)}
    (h : s.Binds (assignments.map Assignment.meant ++ more))
    (hMore : (more.map Prod.fst).filterMap Site.assigned? = []) :
    s.assignedColumns = (assignments.map Assignment.column).map Column.name := by
  rw [Statement.assignedColumns, h.sites, List.map_append, List.filterMap_append, hMore,
    List.append_nil]
  simp [Assignment.meant, Site.assigned?, Function.comp_def, List.filterMap_map]

theorem assignedColumns_insert (h : insert d e members = .ok m) :
    m.statement.assignedColumns =
      (members.filterMap fun member => e.assigned? true member.1).map Column.name := by
  obtain ⟨assignments, hMembers, rfl⟩ := insert_eq_ok h
  rw [← Assignment.map_column_eq_filterMap hMembers]
  have hBinds := binds_insertion d e assignments
  rw [← List.append_nil (assignments.map _)] at hBinds
  exact assignedColumns_of_binds hBinds rfl

theorem assignedColumns_update (h : update d e id members = .ok m) :
    m.statement.assignedColumns =
      (members.filterMap fun member => e.assigned? false member.1).map Column.name := by
  obtain ⟨key, v, assignments, -, -, hMembers, rfl⟩ := update_eq_ok h
  rw [← Assignment.map_column_eq_filterMap hMembers]
  cases assignments with
  | nil => exact assignedColumns_of_binds (binds_rowByKey_value key v) rfl
  | cons a as => exact assignedColumns_of_binds (binds_rowUpdate d e key v (a :: as)) rfl

/-- Whatever is stored, the insertion and the update assign each column at most once exactly when no
column is named twice, in whatever case, by the members that are assigned. A patch that comes down
to sets names none twice, however often its operations name it. -/
theorem columns_assigned_once_iff (d : Dialect) (e : Entity) :
    (∀ members m, insert d e members = .ok m →
      (m.statement.assignedColumns.Nodup ↔ e.NamesOnce true members)) ∧
    (∀ id members m, update d e id members = .ok m →
      (m.statement.assignedColumns.Nodup ↔ e.NamesOnce false members)) ∧
    ∀ (part : SubPatch) sets m, part.columnSets = .ok sets →
      update d e part.id sets = .ok m → m.statement.assignedColumns.Nodup := by
  have hUpdate {id members m} (h : update d e id members = .ok m) :
      m.statement.assignedColumns.Nodup ↔ e.NamesOnce false members := by
    rw [assignedColumns_update h]
    exact Entity.nodup_assigned_iff
  refine ⟨fun members m h => ?_, fun id members m h => hUpdate h, ?_⟩
  · rw [assignedColumns_insert h]
    exact Entity.nodup_assigned_iff
  · intro part sets m hSets h
    have hDistinct := SubPatch.distinct_iff.mp (SubPatch.distinct_setsInto hSets trivial)
    rw [hUpdate h, Entity.NamesOnce]
    refine hDistinct.imp ?_
    intro a b hApart _
    exact hApart

def namedOnce : List (String × Json) := [("ID", .number (.int 7)), ("name", .text "a")]

def renamedTwice : SubPatch :=
  ⟨"7", [SubPatch.renamed "/7/Name" "a", SubPatch.renamed "/7/name" "b"]⟩

theorem columns_of_renamings_assigned_once :
    (∃ m, insert .postgres SubPatch.numberedItems namedOnce = .ok m ∧
      m.statement.assignedColumns.Nodup) ∧
      (∃ m, update .mysql SubPatch.numberedItems "7" namedOnce = .ok m ∧
        m.statement.assignedColumns.Nodup) ∧
      ∃ sets m, renamedTwice.columnSets = .ok sets ∧
        update .sqlServer SubPatch.numberedItems renamedTwice.id sets = .ok m ∧
        m.statement.assignedColumns.Nodup := by
  have hOnce (withKey : Bool) : SubPatch.numberedItems.NamesOnce withKey namedOnce :=
    List.pairwise_pair.mpr fun _ => rfl
  refine ⟨⟨_, rfl, ?_⟩, ⟨_, rfl, ?_⟩, _, _, rfl, rfl, ?_⟩
  · exact ((columns_assigned_once_iff .postgres SubPatch.numberedItems).1 namedOnce _ rfl).mpr
      (hOnce true)
  · exact ((columns_assigned_once_iff .mysql SubPatch.numberedItems).2.1 "7" namedOnce _ rfl).mpr
      (hOnce false)
  · exact (columns_assigned_once_iff .sqlServer SubPatch.numberedItems).2.2 renamedTwice _ _ rfl rfl

def namedTwice : List (String × Json) := [("Name", .text "a"), ("name", .text "b")]

/-- Two spellings of one column in a body are two members, and both are assigned. -/
theorem column_assigned_twice :
    ((SubPatch.numberedItems.columns.map fun c => Text.folded c.name).Nodup ∧
      Body.validate SubPatch.numberedItems (.object namedTwice) = .ok namedTwice) ∧
      (∃ m, insert .postgres SubPatch.numberedItems namedTwice = .ok m ∧
        ¬ m.statement.assignedColumns.Nodup) ∧
      ∃ m, update .postgres SubPatch.numberedItems "7" namedTwice = .ok m ∧
        ¬ m.statement.assignedColumns.Nodup := by
  obtain ⟨m, hInsert⟩ : ∃ m, insert .postgres SubPatch.numberedItems namedTwice = .ok m := ⟨_, rfl⟩
  obtain ⟨n, hUpdate⟩ : ∃ n, update .postgres SubPatch.numberedItems "7" namedTwice = .ok n :=
    ⟨_, rfl⟩
  refine ⟨⟨by decide, rfl⟩, ⟨m, hInsert, ?_⟩, n, hUpdate, ?_⟩
  · rw [assignedColumns_insert hInsert]
    decide
  · rw [assignedColumns_update hUpdate]
    decide

end Mutation

end TableGateway
