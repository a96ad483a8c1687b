import TableGateway.Proofs.Sql.Agreement
import TableGateway.Proofs.Sql.Once

/-!
# What may be written

An insertion writes the members of a body whose columns are not generated, and an update writes
those of them whose column is not the key, to the row that the id addresses. Each statement is
pinned down by what it says, by the names in it, and by what its placeholders stand for, all of
which are read from its text.
-/

namespace TableGateway

open Draft

variable {d : Dialect} {e : Entity} {id : String} {members : List (String × Json)}

/-- The values that are submitted, each with the column that its name stands for. -/
def Entity.submitted (e : Entity) (members : List (String × Json)) : List (Column × Json) :=
  members.filterMap fun member => (e.column? member.1).map fun c => (c, member.2)

namespace Entity

theorem mem_of_submitted {p : Column × Json} (h : p ∈ e.submitted members) : p.1 ∈ e.columns := by
  obtain ⟨member, -, hFound⟩ := List.mem_filterMap.mp h
  obtain ⟨c, hColumn, rfl⟩ := Option.map_eq_some_iff.mp hFound
  exact List.mem_of_find?_eq_some hColumn

theorem primaryKey_of_primaryKey? {key : Column} (h : e.primaryKey? = some key) :
    key.primaryKey = true :=
  List.find?_some h

/-- With one key at most, the columns that are keys are the key. -/
theorem filter_submitted_eq {key : Column} (hOne : e.hasOneKey = true)
    (hKey : e.primaryKey? = some key) :
    (e.submitted members).filter (fun p => !p.1.isGenerated && p.1 ≠ key) =
      (e.submitted members).filter fun p => !(p.1.isGenerated || p.1.primaryKey) := by
  refine List.filter_congr fun p hp => ?_
  rw [Bool.not_or]
  refine congrArg (!p.1.isGenerated && ·) ?_
  cases hPrimary : p.1.primaryKey with
  | true => simpa using eq_of_hasOneKey hOne hKey (mem_of_submitted hp) hPrimary
  | false =>
    refine decide_eq_true fun hEq => ?_
    rw [hEq, primaryKey_of_primaryKey? hKey] at hPrimary
    cases hPrimary

end Entity

namespace Assignment

/-- The assignment of a submitted value to its column. -/
structure Takes (p : Column × Json) (a : Assignment) : Prop where
  column : a.column = p.1
  value : BoundValue.ofJson p.1 p.2 = .ok a.value

/-- The submitted values that are not passed over are assigned one by one. -/
theorem takes_of_ofMembers {withKey : Bool} {assignments : List Assignment}
    (h : ofMembers e withKey members = .ok assignments) :
    List.Forall₂ Takes
      ((e.submitted members).filter fun p =>
        !(p.1.isGenerated || (!withKey && p.1.primaryKey))) assignments := by
  obtain ⟨-, hStored⟩ := ofMembers_eq_ok_iff.mp h
  -- Both lists drop the same members, so they are walked through together.
  clear h
  induction members generalizing assignments with
  | nil =>
    cases hStored
    exact .nil
  | cons member members ih =>
    rw [List.filter_cons] at hStored
    rw [Entity.submitted, List.filterMap_cons]
    cases hColumn : e.column? member.1 with
    | none =>
      have hNone : e.assigned? withKey member.1 = none := by rw [Entity.assigned?, hColumn]; rfl
      rw [hNone] at hStored
      exact ih hStored
    | some c =>
      rw [Option.map_some, List.filter_cons]
      cases hKept : !(c.isGenerated || (!withKey && c.primaryKey)) with
      | false =>
        have hNone : e.assigned? withKey member.1 = none := by
          rw [Entity.assigned?, hColumn, Option.filter_some, hKept]
          rfl
        rw [hNone] at hStored
        exact ih hStored
      | true =>
        have hSome : e.assigned? withKey member.1 = some c := by
          rw [Entity.assigned?, hColumn, Option.filter_some, hKept]
          rfl
        rw [hSome] at hStored
        cases hStored with
        | @cons _ a _ _ hFirst hOthers =>
          obtain rfl : c = a.column := Option.some.inj (hSome.symm.trans hFirst.column)
          exact .cons ⟨rfl, hFirst.value⟩ (ih hOthers)

end Assignment

namespace Piece

def listed (items : List (List Piece)) : List Piece := [Piece.sign ','].intercalate items

def enclosed (ps : List Piece) : List Piece := .opening :: ps ++ [.closing]

/-- A column and a placeholder with the equals sign between them. -/
def equation (column : String) : List Piece := [.name column, .sign '=', .slot]

/-- A table into which a row is inserted that has placeholders in these columns. -/
def insertion (table : String) (columns : List String) : List Piece :=
  [.word "INSERT", .into, .name table] ++
    if columns = [] then []
    else enclosed (listed (columns.map fun c => [.name c])) ++ .values ::
      enclosed (listed (columns.map fun _ => [.slot]))

/-- A table that is updated in these columns, where its key is equal to a placeholder. -/
def rowUpdate (table : String) (columns : List String) (key : String) : List Piece :=
  [.table "UPDATE", .name table, .word "SET"] ++ listed (columns.map equation) ++
    .predicate :: equation key

def rowByKey (table key : String) : List Piece :=
  [.table "FROM", .name table, .predicate] ++ equation key

end Piece

namespace Statement

/-- What a text says, with its first word, the names in it, and what its placeholders are for. -/
structure ReadsAs (s : Statement) (verb : String) (gist : List Piece) (names : List String)
    (meant : List (Site × BoundValue)) : Prop where
  verb : s.tokens.head? = some (.word verb.toList)
  gist : s.gist = gist
  consists : s.Consists (names.map .name)
  binds : s.Binds meant

/-- Inserts a row with these assignments, and hands it back where the engine does. -/
def InsertsRow (s : Statement) (e : Entity) (d : Dialect) (assignments : List Assignment) : Prop :=
  let columns := assignments.map fun a => a.column.name
  let (before, after) := d.returnedNames e.columns
  s.ReadsAs "INSERT" (Piece.insertion e.name columns)
    (d.tableNames e.schema e.name ++ columns ++ before ++ after)
    (assignments.map Assignment.meant)

/-- Makes these assignments where the key has this value. -/
def UpdatesRow (s : Statement) (e : Entity) (d : Dialect) (key : Column) (v : BoundValue)
    (assignments : List Assignment) : Prop :=
  let columns := assignments.map fun a => a.column.name
  let (before, after) := d.returnedNames e.columns
  s.ReadsAs "UPDATE" (Piece.rowUpdate e.name columns key.name)
    (d.tableNames e.schema e.name ++ columns ++ before ++ key.name :: after)
    (assignments.map Assignment.meant ++ [(.compared key.name, v)])

/-- Selects where the key has this value. -/
def SelectsRow (s : Statement) (e : Entity) (d : Dialect) (key : Column) (v : BoundValue) : Prop :=
  s.ReadsAs "SELECT" (Piece.rowByKey e.name key.name) (e.rowNames d key) [(.compared key.name, v)]

theorem verb_of_draft {s : Statement} (k : Keyword) (hLegible : Legible s.dialect s.draft)
    (hHead : s.draft.head? = some (.keyword k)) :
    s.tokens.head? = some (.word k.text.toList) := by
  obtain ⟨rest, hDraft⟩ := List.head?_eq_some_iff.mp hHead
  rw [tokens_eq hLegible, hDraft]
  rfl

end Statement

namespace Draft

theorem pieces_listed (drafts : List Draft) :
    (listed drafts).pieces = Piece.listed (drafts.map pieces) := by
  induction drafts with
  | nil => rfl
  | cons a drafts ih =>
    cases drafts with
    | nil => simp [listed, Piece.listed]
    | cons b drafts =>
      rw [listed, List.intercalate_cons_cons, pieces_append, pieces_append]
      change _ ++ _ ++ (listed (b :: drafts)).pieces = _
      rw [ih, Piece.listed, List.map_cons, List.map_cons, List.map_cons, Piece.listed,
        List.intercalate_cons_cons]
      rfl

theorem pieces_comparison (column : Column) (v : BoundValue) :
    (equals [.name column.name] (Mutation.keyPlaceholder column v)).pieces =
      Piece.equation column.name := rfl

end Draft

namespace Mutation

theorem insertsRow_insertion (d : Dialect) (e : Entity) (assignments : List Assignment) :
    (insertion d e assignments).statement.InsertsRow e d assignments where
  verb := by
    have hLegible := legible_insertion d e assignments
    rw [insertion_statement] at hLegible ⊢
    exact Statement.verb_of_draft .INSERT hLegible rfl
  gist := by
    have hLegible := legible_insertion d e assignments
    rw [insertion_statement] at hLegible
    rw [insertion_statement, Statement.gist_eq hLegible, ← insertion_statement]
    cases assignments with
    | nil => exact gist_insertion_nil d e
    | cons a as =>
      rw [gist_insertion_cons, pieces_enclosed, pieces_enclosed, pieces_listed, pieces_listed,
        Piece.insertion, if_neg (by simp)]
      simp only [List.map_map]
      rfl
  consists := consists_insertion d e assignments
  binds := binds_insertion d e assignments

theorem updatesRow_rowUpdate (d : Dialect) (e : Entity) (key : Column) (v : BoundValue)
    (assignments : List Assignment) :
    (rowUpdate d e key v assignments).statement.UpdatesRow e d key v assignments where
  verb := by
    have hLegible := legible_rowUpdate d e key v assignments
    rw [rowUpdate_statement] at hLegible ⊢
    exact Statement.verb_of_draft .UPDATE hLegible rfl
  gist := by
    have hLegible := legible_rowUpdate d e key v assignments
    rw [rowUpdate_statement] at hLegible
    rw [rowUpdate_statement, Statement.gist_eq hLegible, ← rowUpdate_statement, gist_rowUpdate,
      pieces_listed, pieces_comparison, Piece.rowUpdate]
    simp only [List.map_map, List.append_assoc]
    rfl
  consists := consists_rowUpdate d e key v assignments
  binds := binds_rowUpdate d e key v assignments

theorem selectsRow_rowByKey (d : Dialect) (e : Entity) (key : Column) (v : BoundValue) :
    (rowByKey d e key (keyPlaceholder key v)).SelectsRow e d key v where
  verb :=
    Statement.verb_of_draft .SELECT (legible_rowByKey e key (legible_keyPlaceholder key v)) rfl
  gist := by
    rw [Statement.gist_eq (legible_rowByKey e key (legible_keyPlaceholder key v)), gist_rowByKey]
    rfl
  consists := consists_rowByKey_value key v
  binds := binds_rowByKey_value key v

def statements (m : Mutation) : List Statement := m.statement :: m.selectBack.toList

end Mutation

/-- The statement assigns to a name that stands for this column. -/
def Entity.Assigns (e : Entity) (s : Statement) (c : Column) : Prop :=
  ∃ name ∈ s.assignedColumns, e.column? name = some c

namespace Assignment

variable {withKey : Bool} {assignments : List Assignment}

/-- The name of a column that is assigned stands for no other column. -/
theorem assigned?_name (h : ofMembers e withKey members = .ok assignments) {a : Assignment}
    (ha : a ∈ assignments) : e.assigned? withKey a.column.name = some a.column := by
  have hMem : a.column ∈ assignments.map column := List.mem_map_of_mem ha
  rw [map_column_eq_filterMap h] at hMem
  obtain ⟨member, -, hAssigned⟩ := List.mem_filterMap.mp hMem
  obtain ⟨hFound, hKept⟩ := Option.filter_eq_some_iff.mp hAssigned
  exact Option.filter_eq_some_iff.mpr ⟨Entity.column?_name hFound, hKept⟩

theorem unprotected_of_assigns {s : Statement} {c : Column}
    (h : ofMembers e withKey members = .ok assignments)
    (hColumns : s.assignedColumns = (assignments.map column).map Column.name)
    (hAssigns : e.Assigns s c) : (c.isGenerated || (!withKey && c.primaryKey)) = false := by
  obtain ⟨name, hName, hColumn⟩ := hAssigns
  rw [hColumns, List.map_map] at hName
  obtain ⟨a, ha, rfl⟩ := List.mem_map.mp hName
  obtain ⟨hFound, hKept⟩ := Option.filter_eq_some_iff.mp (assigned?_name h ha)
  obtain rfl : a.column = c := Option.some.inj (hFound.symm.trans hColumn)
  exact (Bool.not_eq_true' _).mp hKept

end Assignment

namespace Mutation

theorem unassigned_of_binds {s : Statement} {supplied : List (Site × BoundValue)}
    (h : s.Binds supplied) (hNone : (supplied.map Prod.fst).filterMap Site.assigned? = []) :
    s.assignedColumns = [] := by
  rw [Statement.assignedColumns, h.sites, hNone]

/-- Behind what a mutation assigns stand the columns that its members may be assigned to. -/
theorem unprotected_of_statements {withKey : Bool} {m : Mutation} {assignments : List Assignment}
    (hMembers : Assignment.ofMembers e withKey members = .ok assignments)
    (hColumns : m.statement.assignedColumns =
      (members.filterMap fun member => e.assigned? withKey member.1).map Column.name)
    (hBack : ∀ s ∈ m.selectBack, s.assignedColumns = []) :
    ∀ s ∈ m.statements, ∀ c, e.Assigns s c →
      (c.isGenerated || (!withKey && c.primaryKey)) = false := by
  intro s hs c hAssigns
  rcases List.mem_cons.mp hs with rfl | hs
  · rw [← Assignment.map_column_eq_filterMap hMembers] at hColumns
    exact Assignment.unprotected_of_assigns hMembers hColumns hAssigns
  · obtain ⟨name, hName, -⟩ := hAssigns
    rw [hBack s (Option.mem_toList.mp hs)] at hName
    cases hName

theorem insert_assigns {m : Mutation} (h : insert d e members = .ok m) :
    ∀ s ∈ m.statements, ∀ c, e.Assigns s c → c.isGenerated = false := by
  obtain ⟨_, hMembers, -⟩ := insert_eq_ok h
  obtain ⟨assignments, -, -, hBack⟩ := insert_binds h
  have hUnassigned : ∀ s ∈ m.selectBack, s.assignedColumns = [] := by
    intro s hs
    obtain ⟨key, -, -, hBinds⟩ := hBack s hs
    exact unassigned_of_binds hBinds (by simp [Site.assigned?])
  simpa using unprotected_of_statements hMembers (assignedColumns_insert h) hUnassigned

theorem update_assigns {m : Mutation} (h : update d e id members = .ok m) :
    ∀ s ∈ m.statements, ∀ c, e.Assigns s c → c.isGenerated = false ∧ c.primaryKey = false := by
  obtain ⟨-, -, _, -, -, hMembers, -⟩ := update_eq_ok h
  obtain ⟨key, v, assignments, -, -, -, -, hBack⟩ := update_binds h
  have hUnassigned : ∀ s ∈ m.selectBack, s.assignedColumns = [] :=
    fun s hs => unassigned_of_binds (hBack s hs) rfl
  simpa using unprotected_of_statements hMembers (assignedColumns_update h) hUnassigned

theorem run_rowByKey (same : BoundValue → BoundValue → Bool) (key : Column) (v : BoundValue)
    (target : List String) (rows : List Row) :
    (rowByKey d e key (keyPlaceholder key v)).run same target rows = rows := by
  obtain ⟨rest, hTokens⟩ := List.head?_eq_some_iff.mp (selectsRow_rowByKey d e key v).verb
  refine if_neg ?_
  rw [hTokens, Token.updated?, if_neg (by decide)]
  rintro ⟨⟩

/-- With nothing to assign the row is selected, and otherwise it is updated and no other row. -/
theorem writes_row {key : Column} {v : BoundValue} {assignments : List Assignment} {m : Mutation}
    (h : m = if assignments.isEmpty then { statement := rowByKey d e key (keyPlaceholder key v) }
      else rowUpdate d e key v assignments) :
    (assignments = [] → m.statement.SelectsRow e d key v) ∧
    (assignments ≠ [] → m.statement.UpdatesRow e d key v assignments) ∧
    (∀ s ∈ m.selectBack, s.SelectsRow e d key v) ∧
    ∀ same rows, m.statement.run same (e.tableNames d) rows = rows.map fun row =>
      if same (row key.name) v then
        assignments.foldl (fun row a => Function.update row a.column.name a.value) row
      else row := by
  subst h
  cases assignments with
  | nil =>
    refine ⟨fun _ => selectsRow_rowByKey d e key v, fun hSome => absurd rfl hSome, nofun,
      fun same rows => (run_rowByKey same key v (e.tableNames d) rows).trans ?_⟩
    simp
  | cons a as =>
    refine ⟨nofun, fun _ => updatesRow_rowUpdate d e key v (a :: as), fun s hs => ?_,
      fun same rows => run_rowUpdate same key v (a :: as) rows⟩
    change s ∈ (rowUpdate d e key v (a :: as)).selectBack at hs
    rw [selectBack_rowUpdate, Option.mem_def, Option.ite_none_right_eq_some] at hs
    exact Option.some.inj hs.2 ▸ selectsRow_rowByKey d e key v

/-- The values that are submitted for columns which may be written are what is written, in their
order and to the row of the key alone, and no names of members make a statement assign anything
else. An update of none of them selects its row. -/
theorem writes_what_may_be_written (d : Dialect) (e : Entity) (hOne : e.hasOneKey = true) :
    (∀ body m, insert d e body = .ok m →
      (∀ member ∈ body, (e.column? member.1).isSome) ∧
      ∃ assignments,
        List.Forall₂ Assignment.Takes
          ((e.submitted body).filter fun p => !p.1.isGenerated) assignments ∧
        m.statement.InsertsRow e d assignments) ∧
    (∀ id members m, update d e id members = .ok m →
      (∀ member ∈ members, (e.column? member.1).isSome) ∧
      ∃ key v assignments, e.primaryKey? = some key ∧ BoundValue.ofText key id = .ok v ∧
        (let written := (e.submitted members).filter fun p => !p.1.isGenerated && p.1 ≠ key
         List.Forall₂ Assignment.Takes written assignments ∧
         (written = [] → m.statement.SelectsRow e d key v) ∧
         (written ≠ [] → m.statement.UpdatesRow e d key v assignments)) ∧
        (∀ s ∈ m.selectBack, s.SelectsRow e d key v) ∧
        ∀ same rows, m.statement.run same (e.tableNames d) rows = rows.map fun row =>
          if same (row key.name) v then
            assignments.foldl (fun row a => Function.update row a.column.name a.value) row
          else row) ∧
    ∀ members,
      (∀ m, insert d e members = .ok m →
        ∀ s ∈ m.statements, ∀ c, e.Assigns s c → c.isGenerated = false) ∧
      ∀ id m, update d e id members = .ok m →
        ∀ s ∈ m.statements, ∀ c, e.Assigns s c → c.isGenerated = false ∧ c.primaryKey = false := by
  refine ⟨fun body m h => ?_, fun id members m h => ?_,
    fun members => ⟨fun m h => insert_assigns h, fun id m h => update_assigns h⟩⟩
  · obtain ⟨assignments, hMembers, rfl⟩ := insert_eq_ok h
    have hTakes := Assignment.takes_of_ofMembers hMembers
    simp only [Bool.not_true, Bool.false_and, Bool.or_false] at hTakes
    exact ⟨(Assignment.ofMembers_eq_ok_iff.mp hMembers).1, assignments, hTakes,
      insertsRow_insertion d e assignments⟩
  · obtain ⟨key, v, assignments, hKey, hText, hMembers, hMutation⟩ := update_eq_ok h
    have hTakes := Assignment.takes_of_ofMembers hMembers
    simp only [Bool.not_false, Bool.true_and] at hTakes
    rw [← Entity.filter_submitted_eq hOne hKey] at hTakes
    obtain ⟨hSelects, hUpdates, hBack, hRun⟩ := writes_row hMutation
    refine ⟨(Assignment.ofMembers_eq_ok_iff.mp hMembers).1, key, v, assignments, hKey, hText,
      ⟨hTakes, fun hNone => hSelects ?_, fun hSome => hUpdates ?_⟩, hBack, hRun⟩
    · exact List.forall₂_nil_left_iff.mp (hNone ▸ hTakes)
    · rintro rfl
      exact hSome (List.forall₂_nil_right_iff.mp hTakes)

def orders : Entity where
  name := "orders"
  schema := "sales"
  readOnly := false
  columns :=
    [{ name := "ID", type := .integer, primaryKey := true, autoNumber := true },
      { name := "Note", type := .text }, { name := "Total", type := .decimal, computed := true }]

def noted : List (String × Json) :=
  [("id", .number (.int 9)), ("NOTE", .text "a"), ("total", .number (.int 1))]

/-- Of an order only its note may be written, however the names of the other columns are spelled. -/
theorem orders_written :
    orders.hasOneKey = true ∧
    (∃ m, insert .postgres orders noted = .ok m ∧
      m.statement.Binds [(.assigned "Note", .text "a")]) ∧
    (∃ m, update .mysql orders "7" noted = .ok m ∧
      m.statement.Binds [(.assigned "Note", .text "a"), (.compared "ID", .int 7)]) ∧
    ∃ m key, update .sqlite orders "7" [("Total", .number (.int 1))] = .ok m ∧
      m.statement.SelectsRow orders .sqlite key (.int 7) := by
  obtain ⟨inserted, hInsert⟩ : ∃ m, insert .postgres orders noted = .ok m := ⟨_, rfl⟩
  obtain ⟨updated, hUpdate⟩ : ∃ m, update .mysql orders "7" noted = .ok m := ⟨_, rfl⟩
  obtain ⟨selected, hSelect⟩ :
    ∃ m, update .sqlite orders "7" [("Total", .number (.int 1))] = .ok m := ⟨_, rfl⟩
  refine ⟨rfl, ⟨inserted, hInsert, ?_⟩, ⟨updated, hUpdate, ?_⟩, selected, ?_⟩
  · obtain ⟨-, assignments, hTakes, hInserts⟩ :=
      (writes_what_may_be_written .postgres orders rfl).1 _ _ hInsert
    change List.Forall₂ _ [(_, Json.text "a")] assignments at hTakes
    cases hTakes with
    | @cons _ a _ _ hFirst hNone =>
      obtain ⟨column, v⟩ := a
      cases hNone
      cases hFirst.column
      cases hFirst.value
      exact hInserts.binds
  · obtain ⟨-, key, v, assignments, hKey, hText, ⟨hTakes, -, hUpdates⟩, -⟩ :=
      (writes_what_may_be_written .mysql orders rfl).2.1 "7" _ _ hUpdate
    cases hKey
    cases hText
    have hStatement := (hUpdates nofun).binds
    change List.Forall₂ _ [(_, Json.text "a")] assignments at hTakes
    cases hTakes with
    | @cons _ a _ _ hFirst hNone =>
      obtain ⟨column, v⟩ := a
      cases hNone
      cases hFirst.column
      cases hFirst.value
      exact hStatement
  · obtain ⟨-, key, v, assignments, hKey, hText, ⟨-, hSelects, -⟩, -⟩ :=
      (writes_what_may_be_written .sqlite orders rfl).2.1 "7" _ _ hSelect
    cases hKey
    cases hText
    exact ⟨_, hSelect, hSelects rfl⟩

end Mutation

end TableGateway
