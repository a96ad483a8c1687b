import Mathlib.Data.List.Nodup
import TableGateway.Proofs.Patch.Merge
import TableGateway.Proofs.Patch.Order

/-!
# The effect of a patch

The updates of the parts, in the order in which they are sent, against the operations of the patch
in their own order. Ids are compared as they are written when a patch is split, but by the keys that
they are read as when rows are updated.
-/

namespace TableGateway

variable {same : BoundValue → BoundValue → Bool} {e : Entity} {key : Column} {v : BoundValue}
  {o o' : PatchOperation} {os : List PatchOperation} {row : Row}

namespace PatchOperation

/-- Both operations leave a value in the same cell of some row. -/
def Meets (same : BoundValue → BoundValue → Bool) (e : Entity) (o o' : PatchOperation) : Prop :=
  (∃ row, o.addresses same e row = true ∧ o'.addresses same e row = true) ∧
    Text.sameName o.set.1 o'.set.1 = true

/-- The operation is about a column that is not the key. -/
def SparesKey (e : Entity) (o : PatchOperation) : Prop :=
  ∃ c, e.column? o.set.1 = some c ∧ c.primaryKey = false

theorem SparesKey.write_key (h : o.SparesKey e) (hNames : (e.columns.map Column.name).Nodup)
    (hKey : e.primaryKey? = some key) : e.write row o.set key.name = row key.name := by
  obtain ⟨c, hColumn, hOther⟩ := h
  have hPrimary : key.primaryKey = true := by simpa using List.find?_some hKey
  have hNe : key.name ≠ c.name := by
    intro hEq
    have hSame := List.inj_on_of_nodup_map hNames (List.mem_of_find?_eq_some hKey)
      (List.mem_of_find?_eq_some hColumn) hEq
    rw [hSame, hOther] at hPrimary
    cases hPrimary
  rw [Entity.write, hColumn]
  exact Function.update_of_ne hNe _ _

theorem SparesKey.addresses_write (h : o.SparesKey e) (hNames : (e.columns.map Column.name).Nodup) :
    o'.addresses same e (e.write row o.set) = o'.addresses same e row := by
  rw [addresses, addresses]
  cases hId : e.keyValue o'.id with
  | error fault => rfl
  | ok found =>
    obtain ⟨key, v⟩ := found
    have hKey := (Entity.keyValue_eq_ok_iff.mp hId).1
    simp only [h.write_key hNames hKey]

theorem exchange_of_not_meets (hNames : (e.columns.map Column.name).Nodup) (h : o.SparesKey e)
    (h' : o'.SparesKey e) (hApart : ¬ o.Meets same e o') :
    SubPatch.Exchange (apply same e) o o' := by
  intro rows
  simp only [apply, List.map_map]
  apply List.map_congr_left
  intro row _
  cases hFirst : o.addresses same e row with
  | false =>
    cases hSecond : o'.addresses same e row with
    | false => simp [hFirst, hSecond]
    | true => simp [hFirst, hSecond, h'.addresses_write hNames]
  | true =>
    cases hSecond : o'.addresses same e row with
    | false => simp [hFirst, hSecond, h.addresses_write hNames]
    | true =>
      have hColumns : Text.sameName o.set.1 o'.set.1 = false :=
        Bool.eq_false_iff.mpr fun hSame => hApart ⟨⟨row, hFirst, hSecond⟩, hSame⟩
      simp [hFirst, hSecond, h.addresses_write hNames, h'.addresses_write hNames,
        Entity.write_comm hColumns]

/-- Operations on one row write to it one after the other. -/
theorem foldl_apply (hNames : (e.columns.map Column.name).Nodup)
    (hKey : ∀ o ∈ os, e.keyValue o.id = .ok (key, v)) (hSpares : ∀ o ∈ os, o.SparesKey e)
    (rows : List Row) :
    os.foldl (apply same e) rows = rows.map fun row =>
      if same (row key.name) v then os.foldl (fun row o => e.write row o.set) row else row := by
  induction os generalizing rows with
  | nil => simp
  | cons o os ih =>
    rw [List.forall_mem_cons] at hKey hSpares
    rw [List.foldl_cons, ih hKey.2 hSpares.2, apply, List.map_map]
    apply List.map_congr_left
    intro row _
    have hCell : e.write row o.set key.name = row key.name :=
      hSpares.1.write_key hNames (Entity.keyValue_eq_ok_iff.mp hKey.1).1
    simp only [Function.comp_apply, addresses, hKey.1]
    cases hSame : same (row key.name) v with
    | false => simp [hSame]
    | true => simp [hSame, hCell]

end PatchOperation

namespace SubPatch

/-- The update of a part does what its operations do one by one. -/
theorem run_rowPatch {sub : SubPatch} {m : SubPatch × Mutation}
    (h : Server.rowPatch e sub = .ok m) (hNonempty : sub.operations ≠ [])
    (hIds : ∀ o ∈ sub.operations, o.id = sub.id) (hNames : (e.columns.map Column.name).Nodup)
    (rows : List Row) :
    (∀ o ∈ sub.operations, o.SparesKey e) ∧
      m.2.statement.run same (e.tableNames .postgres) rows =
        sub.operations.foldl (PatchOperation.apply same e) rows := by
  obtain ⟨sets, hSets, h⟩ := Outcome.bind_eq_ok_iff.mp h
  obtain ⟨⟨⟩, hValid, h⟩ := Outcome.bind_eq_ok_iff.mp h
  obtain ⟨update, hUpdate, h⟩ := Outcome.bind_eq_ok_iff.mp h
  cases h
  have hStorable := Body.validateSets_eq_ok (Outcome.mapError_eq_ok_iff.mp hValid)
  obtain ⟨hWrites, hNamed⟩ := setsInto_eq_ok (e := e) (Outcome.mapError_eq_ok_iff.mp hSets) trivial
  obtain ⟨key, v, assignments, hKey, hText, hMembers, rfl⟩ :=
    Mutation.update_eq_ok (Outcome.mapError_eq_ok_iff.mp hUpdate)
  have hStores := Body.stores_of_storable hStorable hMembers
  have hFound : ∀ o ∈ sub.operations, ∃ set ∈ sets, Text.sameName set.1 o.set.1 = true := by
    intro o ho
    have hSet : names sets o.set.1 = true := by
      rw [hNamed]
      exact List.any_eq_true.mpr ⟨o, ho, Text.sameName_self o.set.1⟩
    exact List.any_eq_true.mp hSet
  have hSpares : ∀ o ∈ sub.operations, o.SparesKey e := by
    intro o ho
    obtain ⟨set, hMem, hSame⟩ := hFound o ho
    obtain ⟨c, hStored⟩ := hStorable set hMem
    refine ⟨c, ?_, (Bool.or_eq_false_iff.mp hStored.unprotected).2⟩
    rw [← e.column?_eq_of_sameName hSame]
    exact hStored.column
  have hKeys : ∀ o ∈ sub.operations, e.keyValue o.id = .ok (key, v) := by
    intro o ho
    rw [hIds o ho]
    exact Entity.keyValue_eq_ok_iff.mpr ⟨hKey, hText⟩
  have hAssigned : assignments.isEmpty = false := by
    obtain ⟨o, ho⟩ := List.exists_mem_of_ne_nil _ hNonempty
    obtain ⟨set, hMem, -⟩ := hFound o ho
    cases hStores with
    | nil => cases hMem
    | cons => rfl
  refine ⟨hSpares, ?_⟩
  rw [hAssigned, if_neg Bool.false_ne_true, Mutation.run_rowUpdate,
    PatchOperation.foldl_apply hNames hKeys hSpares]
  apply List.map_congr_left
  intro row _
  rw [Body.foldl_assignments hStores, hWrites]
  rfl

theorem run_rowPatches (same : BoundValue → BoundValue → Bool) {subs : List SubPatch}
    {rows : List (SubPatch × Mutation)}
    (h : List.Forall₂ (fun sub m => Server.rowPatch e sub = .ok m) subs rows)
    (hNonempty : ∀ sub ∈ subs, sub.operations ≠ [])
    (hIds : ∀ sub ∈ subs, ∀ o ∈ sub.operations, o.id = sub.id)
    (hNames : (e.columns.map Column.name).Nodup) (table : List Row) :
    (∀ sub ∈ subs, ∀ o ∈ sub.operations, o.SparesKey e) ∧
      rows.foldl (fun table m => m.2.statement.run same (e.tableNames .postgres) table) table =
        run (PatchOperation.apply same e) subs table := by
  induction h generalizing table with
  | nil => exact ⟨by simp, rfl⟩
  | cons hFirst _ ih =>
    rw [List.forall_mem_cons] at hNonempty hIds
    obtain ⟨hSpares, hRun⟩ := run_rowPatch hFirst hNonempty.1 hIds.1 hNames table
    obtain ⟨hOthers, hRest⟩ := ih hNonempty.2 hIds.2 _
    refine ⟨List.forall_mem_cons.mpr ⟨hSpares, hOthers⟩, ?_⟩
    rw [List.foldl_cons, hRest, hRun]
    rfl

/-- The updates of an accepted patch do what its operations do one by one, if the operations that
change places in the parts never meet in a cell. -/
theorem parts_keep_effect (same : BoundValue → BoundValue → Bool) {e : Entity}
    {os : List PatchOperation} {subs : List SubPatch} {rows : List (SubPatch × Mutation)}
    (hNames : (e.columns.map Column.name).Nodup) (hSplit : split os = .ok subs)
    (hRows : subs.mapM (Server.rowPatch e) = .ok rows)
    (hOrder : os.Pairwise fun o o' =>
      place subs o'.id < place subs o.id → ¬ o.Meets same e o') (table : List Row) :
    rows.foldl (fun table m => m.2.statement.run same (e.tableNames .postgres) table) table =
      os.foldl (PatchOperation.apply same e) table := by
  obtain ⟨-, rfl⟩ := split_eq_ok_iff.mp hSplit
  obtain ⟨hSpares, hRun⟩ := run_rowPatches same (Outcome.mapM_eq_ok_iff.mp hRows)
    (fun _ => operations_ne_nil) (fun _ => id_of_mem_operations) hNames table
  have hAll : ∀ o ∈ os, o.SparesKey e := by
    intro o ho
    have hMem : o ∈ (part os o.id).operations := List.mem_filter.mpr ⟨ho, decide_eq_true rfl⟩
    exact hSpares _ (mem_parts_iff.mpr ⟨o, ho, rfl⟩) o hMem
  rw [hRun]
  apply run_parts
  apply hOrder.imp_of_mem
  intro o o' ho ho' hApart hPlace
  exact PatchOperation.exchange_of_not_meets hNames (hAll o ho) (hAll o' ho') (hApart hPlace)

def numberedItems : Entity where
  name := "items"
  schema := "shop"
  readOnly := false
  columns := [{ name := "ID", type := .integer, primaryKey := true },
    { name := "Name", type := .text }]

def sameNumber : BoundValue → BoundValue → Bool
  | .int m, .int n => m = n
  | _, _ => false

def numberedRow (n : Int) : Row := Function.update (fun _ => .null) "ID" (.int n)

def renamed (path name : String) : PatchOperation where
  kind := .replace
  path
  value := some (.text name)

/-- The third operation overtakes the second one, which is about another row. -/
theorem renamings_keep_effect :
    ∃ subs rows,
      split [renamed "/1/Name" "a", renamed "/2/Name" "b", renamed "/1/name" "c"] = .ok subs ∧
      subs.mapM (Server.rowPatch numberedItems) = .ok rows ∧
      rows.foldl (fun table m =>
          m.2.statement.run sameNumber (numberedItems.tableNames .postgres) table)
          [numberedRow 1, numberedRow 2] =
        [renamed "/1/Name" "a", renamed "/2/Name" "b", renamed "/1/name" "c"].foldl
          (PatchOperation.apply sameNumber numberedItems) [numberedRow 1, numberedRow 2] := by
  refine ⟨_, _, rfl, rfl, ?_⟩
  refine parts_keep_effect sameNumber (by decide) rfl rfl ?_ _
  have hSecond :
      ¬ (renamed "/2/Name" "b").Meets sameNumber numberedItems (renamed "/1/name" "c") := by
    rintro ⟨⟨row, hTwo, hOne⟩, -⟩
    change sameNumber (row "ID") (.int 2) = true at hTwo
    change sameNumber (row "ID") (.int 1) = true at hOne
    cases hCell : row "ID" with
    | int n =>
      rw [hCell] at hTwo hOne
      have hLeft : n = 2 := of_decide_eq_true hTwo
      have hRight : n = 1 := of_decide_eq_true hOne
      omega
    | _ =>
      rw [hCell] at hTwo
      cases hTwo
  refine List.pairwise_cons.mpr ⟨?_, List.pairwise_pair.mpr fun _ => hSecond⟩
  intro o _ hPlace
  exact absurd hPlace (Nat.not_lt_zero _)

/-- Two spellings of a key make two parts, so the last operation comes before the second one. -/
theorem renamings_lose_order :
    ∃ subs rows,
      split [renamed "/1/Name" "a", renamed "/01/Name" "b", renamed "/1/Name" "c"] = .ok subs ∧
      subs.mapM (Server.rowPatch numberedItems) = .ok rows ∧
      numberedItems.keyValue "1" = numberedItems.keyValue "01" ∧
      (rows.foldl (fun table m =>
          m.2.statement.run sameNumber (numberedItems.tableNames .postgres) table)
          [numberedRow 1]).map (fun row => row "Name") = [.text "b"] ∧
      ([renamed "/1/Name" "a", renamed "/01/Name" "b", renamed "/1/Name" "c"].foldl
          (PatchOperation.apply sameNumber numberedItems) [numberedRow 1]).map
            (fun row => row "Name") = [.text "c"] := by
  obtain ⟨rows, hRows⟩ : ∃ rows,
      (parts [renamed "/1/Name" "a", renamed "/01/Name" "b", renamed "/1/Name" "c"]).mapM
        (Server.rowPatch numberedItems) = .ok rows := ⟨_, rfl⟩
  refine ⟨_, rows, split_eq_ok_iff.mpr ⟨by decide, rfl⟩, hRows, rfl, ?_, rfl⟩
  have hRun := (run_rowPatches sameNumber (Outcome.mapM_eq_ok_iff.mp hRows)
    (fun _ => operations_ne_nil) (fun _ => id_of_mem_operations) (by decide) [numberedRow 1]).2
  rw [hRun]
  rfl

end SubPatch

end TableGateway
