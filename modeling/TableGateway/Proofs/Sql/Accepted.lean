import TableGateway.Proofs.Sql.Once

/-!
# Accepted bodies are written

Whether a body is accepted is decided for all of its members, and a statement is made of those that
are assigned. Of what is accepted an insertion is always made. An update is made unless the row
cannot be addressed, which is up to the id alone; of sets that are accepted it assigns every one.
-/

namespace TableGateway

variable {d : Dialect} {e : Entity} {id : String} {members sets : List (String × Json)}

/-- Why an id addresses no row: there is no key, or the id is no value of it. -/
inductive Entity.Unaddressed (e : Entity) (id : String) : StatementError → Prop
  | noKey (h : e.primaryKey? = none) : e.Unaddressed id (.missingPrimaryKey e.name)
  | noValue {key : Column} {fault : QueryError} (hKey : e.primaryKey? = some key)
      (hText : BoundValue.ofText key id = .error fault) : e.Unaddressed id (.query fault)

theorem Entity.keyValue_eq_error_iff {fault : StatementError} :
    e.keyValue id = .error fault ↔ e.Unaddressed id fault := by
  rw [keyValue, Outcome.bind_eq_error_iff]
  constructor
  · rintro (hKey | ⟨key, hKey, hRest⟩)
    · rw [requireKey] at hKey
      split at hKey
      · cases hKey
      · next hNone =>
        cases hKey
        exact .noKey hNone
    · rw [requireKey_eq_ok_iff] at hKey
      rcases Outcome.bind_eq_error_iff.mp hRest with hValue | ⟨v, -, hPair⟩
      · obtain ⟨fault, hText, rfl⟩ := Outcome.mapError_eq_error_iff.mp hValue
        exact .noValue hKey hText
      · cases hPair
  · rintro (hNone | ⟨hKey, hText⟩)
    · exact .inl (by rw [requireKey, hNone])
    · refine .inr ⟨_, requireKey_eq_ok_iff.mpr hKey, Outcome.bind_eq_error_iff.mpr (.inl ?_)⟩
      exact Outcome.mapError_eq_error_iff.mpr ⟨_, hText, rfl⟩

/-- A member names a column that takes its value. -/
structure Body.Fits (e : Entity) (member : String × Json) (c : Column) : Prop where
  column : e.column? member.1 = some c
  value : ∃ v, BoundValue.ofJson c member.2 = .ok v

namespace Body

theorem Storable.fits {set : String × Json} {c : Column} (h : Storable e set c) : Fits e set c :=
  ⟨h.column, h.value⟩

theorem memberProblems_eq_nil_iff {member : String × Json} :
    memberProblems e member = [] ↔ ∃ c, Fits e member c := by
  rw [memberProblems]
  constructor
  · intro h
    split at h
    · cases h
    · next c hColumn =>
      split at h
      · next v hValue => exact ⟨c, hColumn, v, hValue⟩
      · cases h
  · rintro ⟨c, hColumn, v, hValue⟩
    simp only [hColumn, hValue]

theorem validate_eq_ok_iff {body : Json} :
    validate e body = .ok members ↔
      body = .object members ∧ ∀ member ∈ members, ∃ c, Fits e member c := by
  have hProblems (ms : List (String × Json)) :
      ms.flatMap (memberProblems e) = [] ↔ ∀ member ∈ ms, ∃ c, Fits e member c := by
    simp only [List.flatMap_eq_nil_iff, memberProblems_eq_nil_iff]
  constructor
  · intro h
    cases body with
    | object ms =>
      obtain ⟨hNone, rfl⟩ := accept_eq_ok_iff.mp h
      exact ⟨rfl, (hProblems ms).mp hNone⟩
    | null | bool | number | text | array => cases h
  · rintro ⟨rfl, hFits⟩
    exact accept_eq_ok_iff.mpr ⟨(hProblems members).mpr hFits, rfl⟩

end Body

namespace Assignment

variable {withKey : Bool}

theorem ofMember_of_fits {name : String} {j : Json} {c : Column} (h : Body.Fits e (name, j) c) :
    ∃ r, ofMember e withKey name j = .ok r := by
  have hKnown : (e.column? name).isSome := Option.isSome_of_eq_some h.column
  cases hAssigned : e.assigned? withKey name with
  | none => exact ⟨none, ofMember_eq_ok_iff.mpr ⟨hKnown, .inl ⟨hAssigned, rfl⟩⟩⟩
  | some c' =>
    have hColumn := (Option.filter_eq_some_iff.mp hAssigned).1
    obtain rfl : c' = c := Option.some.inj (hColumn.symm.trans h.column)
    obtain ⟨v, hValue⟩ := h.value
    have hStores : Stores e withKey (name, j) ⟨c', v⟩ := ⟨hAssigned, hValue⟩
    exact ⟨some ⟨c', v⟩, ofMember_eq_ok_iff.mpr ⟨hKnown, .inr ⟨_, hStores, rfl⟩⟩⟩

theorem ofMembers_of_fits (h : ∀ member ∈ members, ∃ c, Body.Fits e member c) :
    ∃ assignments, ofMembers e withKey members = .ok assignments := by
  induction members with
  | nil => exact ⟨[], rfl⟩
  | cons member members ih =>
    obtain ⟨⟨c, hFits⟩, hOthers⟩ := List.forall_mem_cons.mp h
    obtain ⟨first, hFirst⟩ : ∃ r, ofMember e withKey _ _ = .ok r := ofMember_of_fits hFits
    obtain ⟨others, hRest⟩ := ih hOthers
    refine ⟨first.toList ++ others, Outcome.bind_eq_ok_iff.mpr ⟨first, hFirst, ?_⟩⟩
    exact Outcome.bind_eq_ok_iff.mpr ⟨others, hRest, rfl⟩

end Assignment

namespace Mutation

theorem insert_of_fits (h : ∀ member ∈ members, ∃ c, Body.Fits e member c) :
    ∃ m, insert d e members = .ok m := by
  obtain ⟨assignments, hMembers⟩ : ∃ assignments, Assignment.ofMembers e true members =
      .ok assignments := Assignment.ofMembers_of_fits h
  exact ⟨insertion d e assignments, by rw [insert, hMembers]⟩

theorem update_eq_error_iff (h : ∀ member ∈ members, ∃ c, Body.Fits e member c)
    {fault : StatementError} :
    update d e id members = .error fault ↔ e.Unaddressed id fault := by
  obtain ⟨assignments, hMembers⟩ : ∃ assignments, Assignment.ofMembers e false members =
      .ok assignments := Assignment.ofMembers_of_fits h
  rw [← Entity.keyValue_eq_error_iff, update, hMembers, Outcome.bind_eq_error_iff]
  refine or_iff_left ?_
  rintro ⟨⟨key, v⟩, -, hRest⟩
  cases assignments with
  | nil | cons => cases hRest

theorem update_sets_eq_ok {m : Mutation} (hSome : sets ≠ [])
    (hSets : ∀ set ∈ sets, ∃ c, Body.Storable e set c) (h : update d e id sets = .ok m) :
    ∃ key v assignments, e.primaryKey? = some key ∧ BoundValue.ofText key id = .ok v ∧
      List.Forall₂ (Assignment.Stores e false) sets assignments ∧
      m = rowUpdate d e key v assignments := by
  obtain ⟨key, v, assignments, hKey, hText, hMembers, rfl⟩ := update_eq_ok h
  have hStored := Body.stores_of_storable hSets hMembers
  refine ⟨key, v, assignments, hKey, hText, hStored, if_neg ?_⟩
  intro hEmpty
  rw [List.isEmpty_iff.mp hEmpty] at hStored
  exact hSome (List.forall₂_nil_right_iff.mp hStored)

/-- What is accepted is written, unless the row cannot be addressed. An update by accepted sets
assigns each of them, in their order and with nothing left out. -/
theorem accepted_is_written (d : Dialect) (e : Entity) :
    (∀ body members, Body.validate e body = .ok members →
      body = .object members ∧ (∃ m, insert d e members = .ok m) ∧
      ∀ id fault, update d e id members = .error fault ↔ e.Unaddressed id fault) ∧
    ∀ sets, sets ≠ [] → Body.validateSets e sets = .ok () → ∀ id,
      (∀ fault, update d e id sets = .error fault ↔ e.Unaddressed id fault) ∧
      ∀ m, update d e id sets = .ok m →
        ∃ key v assignments, e.primaryKey? = some key ∧ BoundValue.ofText key id = .ok v ∧
          List.Forall₂ (Assignment.Stores e false) sets assignments ∧
          Token.updated? m.statement.tokens = some (e.tableNames d) ∧
          m.statement.Binds (assignments.map Assignment.meant ++ [(.compared key.name, v)]) := by
  constructor
  · intro body members h
    obtain ⟨hBody, hFits⟩ := Body.validate_eq_ok_iff.mp h
    exact ⟨hBody, insert_of_fits hFits, fun id fault => update_eq_error_iff hFits⟩
  · intro sets hSome h id
    have hSets := Body.validateSets_eq_ok h
    have hFits : ∀ set ∈ sets, ∃ c, Body.Fits e set c := fun set hSet =>
      (hSets set hSet).imp fun _ hStorable => hStorable.fits
    refine ⟨fun fault => update_eq_error_iff hFits, fun m hUpdate => ?_⟩
    obtain ⟨key, v, assignments, hKey, hText, hStored, rfl⟩ := update_sets_eq_ok hSome hSets hUpdate
    exact ⟨key, v, assignments, hKey, hText, hStored, updated?_rowUpdate key v assignments,
      binds_rowUpdate d e key v assignments⟩

/-- A numbered item is inserted and renamed, and an id that is no number addresses none. -/
theorem accepted_namedOnce :
    (Body.validate SubPatch.numberedItems (.object namedOnce) = .ok namedOnce ∧
      (∃ m, insert .mysql SubPatch.numberedItems namedOnce = .ok m) ∧
      ∃ fault, update .mysql SubPatch.numberedItems "x" namedOnce = .error (.query fault)) ∧
    Body.validateSets SubPatch.numberedItems [("name", .text "a")] = .ok () ∧
      ∃ m, update .postgres SubPatch.numberedItems "7" [("name", .text "a")] = .ok m ∧
        m.statement.Binds [(.assigned "Name", .text "a"), (.compared "ID", .int 7)] := by
  have hBody : Body.validate SubPatch.numberedItems (.object namedOnce) = .ok namedOnce := rfl
  have hSets : Body.validateSets SubPatch.numberedItems [("name", .text "a")] = .ok () := rfl
  refine ⟨⟨hBody, ?_, ?_⟩, hSets, _, rfl, ?_⟩
  · exact ((accepted_is_written .mysql SubPatch.numberedItems).1 _ _ hBody).2.1
  · obtain ⟨-, -, hUpdate⟩ :=
      (accepted_is_written .mysql SubPatch.numberedItems).1 _ namedOnce hBody
    exact ⟨_, (hUpdate "x" _).mpr (.noValue rfl rfl)⟩
  · obtain ⟨-, hAssigned⟩ :=
      (accepted_is_written .postgres SubPatch.numberedItems).2 _ (by simp) hSets "7"
    obtain ⟨key, v, assignments, hKey, hText, hStored, -, hBinds⟩ := hAssigned _ rfl
    cases hKey
    cases hText
    cases hStored with
    | @cons _ a _ _ hFirst hNone =>
      obtain ⟨column, w⟩ := a
      cases hNone
      cases hFirst.column
      cases hFirst.value
      exact hBinds

end Mutation

end TableGateway
