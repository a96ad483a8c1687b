import TableGateway.Proofs.Service.Atomicity
import TableGateway.Proofs.Service.Scope
import TableGateway.Proofs.Sql.Effect

/-!
# Records of replacements

A replacement is recorded with an operation for each member of its body, and its statement has an
assignment for each member whose column may be assigned. What is recorded of these members is what
is assigned to them, in the same order. The other members, which name the key or a generated column,
are recorded as well, and nothing is done for them.
-/

namespace TableGateway

open PatchOperation (listToDocument ofReplaced)

/-- What a statement assigns: the columns with their values, in the order of the text. -/
def Statement.assignments (s : Statement) : List (String × BoundValue) :=
  s.bound.filterMap fun
    | (.assigned column, v) => some (column, v)
    | (.compared _, _) => none

namespace Mutation

theorem assignments_of_binds {s : Statement} {assigned : List Assignment} {key : String}
    {v : BoundValue} (h : s.Binds (assigned.map Assignment.meant ++ [(.compared key, v)])) :
    s.assignments = assigned.map fun a => (a.column.name, a.value) := by
  rw [Statement.assignments, h.bound_eq, List.filterMap_append]
  simp [Assignment.meant, List.filterMap_map, Function.comp_def]

theorem assignments_update {d : Dialect} {e : Entity} {id : String}
    {members : List (String × Json)} {m : Mutation} (h : update d e id members = .ok m) :
    ∃ assigned, Assignment.ofMembers e false members = .ok assigned ∧
      m.statement.assignments = assigned.map fun a => (a.column.name, a.value) := by
  obtain ⟨key, v, assigned, -, -, hMembers, rfl⟩ := update_eq_ok h
  refine ⟨assigned, hMembers, ?_⟩
  cases assigned with
  | nil => exact assignments_of_binds (binds_rowByKey_value key v)
  | cons a as => exact assignments_of_binds (binds_rowUpdate d e key v (a :: as))

end Mutation

/-- The operation replaces, in the resource, the column of the assignment by the value that this
column takes for the one in the operation. -/
def PatchOperation.Reports (e : Entity) (id : String) (o : PatchOperation)
    (assigned : String × BoundValue) : Prop :=
  ∃ member c, ofReplaced id [member] = [o] ∧ e.column? member.1 = some c ∧ c.name = assigned.1 ∧
    BoundValue.ofJson c member.2 = .ok assigned.2

namespace PatchOperation

variable {e : Entity} {id : String} {members : List (String × Json)}

theorem reports_of_stores {assigned : List Assignment}
    (h : List.Forall₂ (Assignment.Stores e false) members assigned) :
    List.Forall₂ (Reports e id) (ofReplaced id members)
      (assigned.map fun a => (a.column.name, a.value)) := by
  rw [ofReplaced, List.forall₂_map_left_iff, List.forall₂_map_right_iff]
  refine h.imp fun member a hStores => ⟨member, a.column, rfl, ?_, rfl, hStores.value⟩
  exact (Option.filter_eq_some_iff.mp hStores.column).1

/-- What is reported of the members that are assigned is what is assigned, and of all members only
if all of them are assigned. -/
theorem reports_update {d : Dialect} {m : Mutation}
    (h : Mutation.update d e id members = .ok m) :
    List.Forall₂ (Reports e id)
        (ofReplaced id (members.filter fun member => (e.assigned? false member.1).isSome))
        m.statement.assignments ∧
      (List.Forall₂ (Reports e id) (ofReplaced id members) m.statement.assignments ↔
        ∀ member ∈ members, (e.assigned? false member.1).isSome = true) := by
  obtain ⟨assigned, hMembers, hAssignments⟩ := Mutation.assignments_update h
  have hReports : List.Forall₂ (Reports e id)
      (ofReplaced id (members.filter fun member => (e.assigned? false member.1).isSome))
      (assigned.map fun a => (a.column.name, a.value)) :=
    reports_of_stores (Assignment.ofMembers_eq_ok_iff.mp hMembers).2
  rw [hAssignments]
  refine ⟨hReports, ?_⟩
  constructor
  · intro hAll
    have hLength := hAll.length_eq.trans hReports.length_eq.symm
    rw [ofReplaced, ofReplaced, List.length_map, List.length_map, eq_comm,
      List.length_filter_eq_length_iff] at hLength
    exact hLength
  · intro hAll
    rw [List.filter_eq_self.mpr hAll] at hReports
    exact hReports

end PatchOperation

namespace Server

/-- A committed replacement sends its statement and then the record of it. The record has an
operation for each member of the body: those whose members are assigned report the assignments of
the statement, and the whole record does exactly when all members are assigned. -/
theorem replacement_is_reported_iff (s : Server) (db : Database) (r : Request)
    (hMethod : r.method = "PUT") (hCommits : db.commits (s.exchange db r).log) :
    ∃ (place : Call.Place) (id : String) (members : List (String × Json)) (e : Entity)
      (m : Mutation) (event : AuditEvent),
      r.inquiry s.maxBodyBytes = .ok (.call place (.replace id (.object members))) ∧
      s.catalog.entity? place.domain place.entity = some e ∧
      Mutation.update .postgres e id members = .ok m ∧
      (s.exchange db r).log =
        [.begin, .statement .write m.statement,
          .statement .write (s.audit.insert .postgres event), .commit] ∧
      event.method = .put ∧ event.id = id ∧
      event.patch = (listToDocument (ofReplaced id members)).toText ∧
      List.Forall₂ (PatchOperation.Reports e id)
        (ofReplaced id (members.filter fun member => (e.assigned? false member.1).isSome))
        m.statement.assignments ∧
      (List.Forall₂ (PatchOperation.Reports e id) (ofReplaced id members)
          m.statement.assignments ↔
        ∀ member ∈ members, (e.assigned? false member.1).isSome = true) := by
  obtain ⟨inside, hTransacts, hInside⟩ := @transacts_of_method s db r (by simp [hMethod])
  obtain ⟨place, call, e, cs, hInquiry, hEntity, hRequests, -, rfl⟩ := hInside hCommits
  have hLog := hTransacts.committed hCommits
  obtain ⟨id, body, rfl⟩ : ∃ id body, call = .replace id body := by
    have hCall := (Request.inquiry_call hInquiry).2
    rw [hMethod] at hCall
    cases call <;> simp [Call.methods] at hCall ⊢
  obtain ⟨c, rfl, hRequest⟩ : ∃ c, cs = [c] ∧ c.request = .replace id body := by
    have hOne := Except.ok.inj hRequests
    obtain ⟨c, rfl, hEq⟩ := List.map_eq_singleton_iff.mp hOne.symm
    exact ⟨c, rfl, hEq⟩
  obtain ⟨q, statement, hMakes⟩ := c
  obtain rfl : q = .replace id body := hRequest
  cases hMakes with
  | @replace _ members m hUpdate =>
    obtain ⟨hKept, hAll⟩ := PatchOperation.reports_update hUpdate
    exact ⟨place, id, members, e, m,
      s.eventOf place e (.replace id (.object members)) db.reply,
      hInquiry, hEntity, hUpdate, hLog, rfl, rfl, rfl, hKept, hAll⟩

/-- A shop in which a user may replace one item. -/
def replaceableShop : Server :=
  { sampleShop with gate := [⟨.user "carol", "shop", some "items", some "a", "put"⟩] }

/-- The sample item is given a value under one name. -/
def sampleReplacement (name : String) : Request :=
  { sampleRequest "PUT" with
    headers := [("x-user-id", "carol"), ("content-type", "application/json")]
    body := "\x7b\"" ++ name ++ "\":\"x\"\x7d" }

theorem inquiry_sampleReplacement {name : String} (hName : name = "Name" ∨ name = "Code") :
    (sampleReplacement name).inquiry 100 =
      .ok (.call samplePlace (.replace "a" (.object [(name, .text "x")]))) := by
  have hJson : (sampleReplacement name).json 100 = .ok (.object [(name, .text "x")]) := by
    have hType : (sampleReplacement name).saysJson = true := by
      change (sampleReplacement "").saysJson = true
      decide +kernel
    have hLength : ¬ (sampleReplacement name).bodyLimit 100 <
        (sampleReplacement name).body.utf8ByteSize := by
      rcases hName with rfl | rfl <;> decide +kernel
    have hTokens : Json.tokens (sampleReplacement name).body.toList =
        [.openObject, .text (some name), .colon, .text (some "x"), .closeObject] := by
      rcases hName with rfl | rfl <;>
        simp [sampleReplacement, Json.tokens_cons, Json.scanToken, Json.scanString, Json.isSpace,
          Json.characters?, Json.tokens]
    refine json_of_tokens hType hLength hTokens ?_
    simp only [Json.Document.ofTokens?, Json.Document.membersOfTokens?]
    rfl
  have hCall : (sampleReplacement name).resourceCall 100 "a" =
      .ok (.replace "a" (.object [(name, .text "x")])) := by
    change ((sampleReplacement name).json 100).map (Call.replace "a") = _
    rw [hJson]
    rfl
  refine inquiry_of_target rfl ?_ rfl hCall
  change (sampleReplacement "").declaredLength? = none
  decide +kernel

theorem log_sampleReplacement {name : String} (hName : name = "Name" ∨ name = "Code") :
    ∃ m, Mutation.update .postgres sampleItems "a" [(name, .text "x")] = .ok m ∧
      (replaceableShop.exchange sampleRows (sampleReplacement name)).log =
        [.begin, .statement .write m.statement,
          .statement .write (replaceableShop.recordOf samplePlace sampleItems
            (.replace "a" (.object [(name, .text "x")])) sampleRows.reply), .commit] := by
  have hPrincipal : (sampleReplacement name).principal = { user := some "carol" } := by
    change (sampleReplacement "").principal = _
    decide +kernel
  obtain ⟨task, m, hPrepare, hUpdate, hLog⟩ : ∃ task m,
      replaceableShop.prepare (replaceableShop.trusted (sampleReplacement name).principal)
        samplePlace (.replace "a" (.object [(name, .text "x")])) = .ok task ∧
      Mutation.update .postgres sampleItems "a" [(name, .text "x")] = .ok m ∧
      ((replaceableShop.run samplePlace task).on { database := sampleRows }).2.log =
        [.begin, .statement .write m.statement,
          .statement .write (replaceableShop.recordOf samplePlace sampleItems
            (.replace "a" (.object [(name, .text "x")])) sampleRows.reply), .commit] := by
    rw [hPrincipal]
    rcases hName with rfl | rfl <;> exact ⟨_, _, rfl, rfl, rfl⟩
  refine ⟨m, hUpdate, ?_⟩
  rw [exchange_of_task (inquiry_sampleReplacement hName) hPrepare]
  exact hLog

/-- A column that is no key is replaced, and what is recorded is what is assigned. -/
theorem nameReplacement_is_reported :
    (sampleReplacement "Name").method = "PUT" ∧
      sampleRows.commits (replaceableShop.exchange sampleRows (sampleReplacement "Name")).log ∧
      ∃ m, Mutation.update .postgres sampleItems "a" [("Name", .text "x")] = .ok m ∧
        List.Forall₂ (PatchOperation.Reports sampleItems "a") (ofReplaced "a" [("Name", .text "x")])
          m.statement.assignments := by
  obtain ⟨m, -, hLog⟩ := log_sampleReplacement (.inl rfl)
  have hCommits :
      sampleRows.commits (replaceableShop.exchange sampleRows (sampleReplacement "Name")).log :=
    ⟨by simp [hLog], rfl⟩
  refine ⟨rfl, hCommits, ?_⟩
  obtain ⟨place, id, members, e, m, event, hInquiry, hEntity, hUpdate, -, -, -, -, -, hAll⟩ :=
    replacement_is_reported_iff replaceableShop sampleRows (sampleReplacement "Name") rfl hCommits
  cases hInquiry.symm.trans (inquiry_sampleReplacement (.inl rfl))
  cases hEntity
  exact ⟨m, hUpdate, hAll.mpr (by decide)⟩

/-- The replacement of the key is committed and recorded, but nothing is assigned. -/
theorem keyReplacement_is_not_assigned :
    ∃ (m : Mutation) (event : AuditEvent),
      Mutation.update .postgres sampleItems "a" [("Code", .text "x")] = .ok m ∧
      (replaceableShop.exchange sampleRows (sampleReplacement "Code")).log =
        [.begin, .statement .write m.statement,
          .statement .write (replaceableShop.audit.insert .postgres event), .commit] ∧
      event.patch = (listToDocument (ofReplaced "a" [("Code", .text "x")])).toText ∧
      m.statement.assignments = [] ∧
      ¬ List.Forall₂ (PatchOperation.Reports sampleItems "a")
        (ofReplaced "a" [("Code", .text "x")]) m.statement.assignments := by
  obtain ⟨m, hUpdate, hLog⟩ := log_sampleReplacement (.inr rfl)
  have hNone : m.statement.assignments = [] := by
    obtain ⟨assigned, hMembers, hAssignments⟩ := Mutation.assignments_update hUpdate
    cases hMembers
    exact hAssignments
  refine ⟨m, _, hUpdate, hLog, rfl, hNone, ?_⟩
  rw [hNone]
  exact nofun

end Server

end TableGateway
