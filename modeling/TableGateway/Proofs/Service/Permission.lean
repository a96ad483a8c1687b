import TableGateway.Proofs.Patch.Split
import TableGateway.Proofs.Service.Arrangement
import TableGateway.Proofs.Sql.Correspondence

/-!
# Permission of what is sent

When anything is sent for a request on an entity, the gate lets the caller do what the request asks
for, with every resource that the request is about. A statement on one resource is keyed by an id
that was decided on.
-/

namespace TableGateway

/-- The statement compares nothing but the key of the entity, with what the id stands for. -/
def Statement.IsKeyedBy (statement : Statement) (e : Entity) (id : String) : Prop :=
  ∃ (key : Column) (v : BoundValue) (assignments : List Assignment),
    e.primaryKey? = some key ∧ BoundValue.ofText key id = .ok v ∧
    statement.Binds (assignments.map Assignment.meant ++ [(.compared key.name, v)])

namespace RowRequest

variable {e : Entity} {q : RowRequest} {statement : Statement} {id : String}

/-- The id of the resource that is asked for; a new row has none yet. -/
def id? : RowRequest → Option String
  | .create _ => none
  | .replace id _ | .delete id => some id
  | .patch sub => some sub.id

theorem Makes.isKeyedBy (h : q.Makes e statement) (hId : q.id? = some id) :
    statement.IsKeyedBy e id := by
  cases h with
  | create => cases hId
  | replace hUpdate =>
    cases hId
    obtain ⟨key, v, assignments, hKey, hText, -, hBinds, -⟩ := Mutation.update_binds hUpdate
    exact ⟨key, v, assignments, hKey, hText, hBinds⟩
  | patch _ hUpdate =>
    cases hId
    obtain ⟨key, v, assignments, hKey, hText, -, hBinds, -⟩ := Mutation.update_binds hUpdate
    exact ⟨key, v, assignments, hKey, hText, hBinds⟩
  | delete hDelete =>
    cases hId
    obtain ⟨key, v, hKey, hText, hBinds⟩ := Mutation.delete_binds hDelete
    exact ⟨key, v, [], hKey, hText, hBinds⟩

end RowRequest

namespace Call

variable {call : Call} {ids : List (Option String)} {qs : List RowRequest} {q : RowRequest}

/-- The capabilities that a call requires together. -/
def capabilities : Call → List Capability
  | .list _ => [.search]
  | .read .. => [.get]
  | .create (.array _) => [.post, .bulk]
  | .create _ => [.post]
  | .replace .. => [.put]
  | .patchMany _ | .patchOne .. => [.patch]
  | .delete _ => [.delete]
  | .options => [.options]

theorem required_holds (call : Call) :
    ∀ c ∈ call.capabilities, call.operation.required.holds c = true := by
  cases call with
  | create body =>
    cases body with
    | array =>
      simp [capabilities, operation, Json.isArray, Operation.required, Permission.ofList]
    | _ => simp [capabilities, operation, Json.isArray, Operation.required, Permission.single]
  | _ => simp [capabilities, operation, Operation.required, Permission.single]

theorem mem_patchedIds {id : Option String} {subs : List SubPatch} {sub : SubPatch}
    (h : sub ∈ subs) : some sub.id ∈ patchedIds id subs := by
  rw [patchedIds, if_neg (by simpa using List.ne_nil_of_mem h)]
  exact List.mem_map_of_mem h

theorem sub_id_mem_targetIds {subs : List SubPatch} (hTargets : call.targetIds = .ok ids)
    (hSubs : call.subPatches = .ok subs) {sub : SubPatch} (hSub : sub ∈ subs) :
    some sub.id ∈ ids := by
  cases call with
  | patchMany | patchOne =>
    rw [targetIds, hSubs] at hTargets
    cases hTargets
    exact mem_patchedIds hSub
  | _ =>
    cases hSubs
    cases hSub

theorem id?_mem_targetIds (hTargets : call.targetIds = .ok ids)
    (hRequests : call.rowRequests = .ok qs) (hq : q ∈ qs) : q.id? ∈ ids := by
  cases call with
  | list | read | options => cases hRequests; cases hq
  | replace | delete =>
    cases hTargets
    cases hRequests
    obtain rfl := List.mem_singleton.mp hq
    exact List.mem_singleton_self _
  | create body =>
    cases hTargets
    cases body with
    | array bodies =>
      cases hRequests
      obtain ⟨body, -, rfl⟩ := List.mem_map.mp hq
      exact List.mem_singleton_self _
    | _ =>
      cases hRequests
      obtain rfl := List.mem_singleton.mp hq
      exact List.mem_singleton_self _
  | patchMany | patchOne =>
    obtain ⟨subs, hSubs, rfl⟩ := Outcome.map_eq_ok_iff.mp hRequests
    obtain ⟨sub, hSub, rfl⟩ := List.mem_map.mp hq
    exact sub_id_mem_targetIds hTargets hSubs hSub

/-- A patch is about every resource that an operation of it names. -/
theorem operation_id_mem_targetIds {os : List PatchOperation} (hTargets : call.targetIds = .ok ids)
    (hOperations : call.operations = .ok os) {o : PatchOperation} (ho : o ∈ os) :
    some o.id ∈ ids := by
  have hPatch : ∃ subs, call.subPatches = .ok subs := by
    cases call with
    | patchMany | patchOne =>
      obtain ⟨subs, hSubs, -⟩ := Outcome.map_eq_ok_iff.mp hTargets
      exact ⟨subs, hSubs⟩
    | _ => cases hOperations; cases ho
  obtain ⟨subs, hSubs⟩ := hPatch
  have hSplit : SubPatch.split os = .ok subs := by
    rw [subPatches, hOperations] at hSubs
    exact hSubs
  obtain ⟨-, rfl⟩ := SubPatch.split_eq_ok_iff.mp hSplit
  exact sub_id_mem_targetIds hTargets hSubs (SubPatch.mem_parts_iff.mpr ⟨o, ho, rfl⟩)

theorem eq_create_of_id?_eq_none (hRequests : call.rowRequests = .ok qs) (hq : q ∈ qs)
    (hNone : q.id? = none) : ∃ body, call = .create body := by
  cases call with
  | create body => exact ⟨body, rfl⟩
  | list | read | options => cases hRequests; cases hq
  | replace | delete =>
    cases hRequests
    obtain rfl := List.mem_singleton.mp hq
    cases hNone
  | patchMany | patchOne =>
    obtain ⟨subs, -, rfl⟩ := Outcome.map_eq_ok_iff.mp hRequests
    obtain ⟨sub, -, rfl⟩ := List.mem_map.mp hq
    cases hNone

end Call

namespace Server

variable {s : Server} {db : Database} {r : Request} {p : Principal} {place : Call.Place}
  {e : Entity} {call : Call} {ids : List (Option String)}

/-- The gate gives all capabilities that a call requires for one target. -/
def Permits (s : Server) (p : Principal) (place : Call.Place) (call : Call)
    (id : Option String) : Prop :=
  ∀ c ∈ call.capabilities,
    (s.gate.effective p ⟨place.domain, place.entity, id⟩).holds c = true

theorem permits_of_allows {id : Option String}
    (h : s.gate.allows p call.operation ⟨place.domain, place.entity, id⟩ = true) :
    s.Permits p place call id :=
  fun c hc => Permission.contains_eq_true_iff.mp h c (call.required_holds c hc)

/-- What may be sent for a call that is about these ids. -/
inductive Justifies (s : Server) (e : Entity) (ids : List (Option String)) : Call → Sent → Prop
  | listed {parameters : List (String × String)} {q : QueryPlan} {statement : Statement}
    (hList : statement = (Statement.list .postgres e q).select ∨
      statement = (Statement.list .postgres e q).count) :
    Justifies s e ids (.list parameters) (.statement .read statement)
  | inserted {body : Json} {members : List (String × Json)} {m : Mutation}
    (hInsert : Mutation.insert .postgres e members = .ok m) :
    Justifies s e ids (.create body) (.statement .write m.statement)
  | keyed {call : Call} {id : String} {pool : Pool} {statement : Statement} (hId : some id ∈ ids)
    (hKeyed : statement.IsKeyedBy e id) :
    Justifies s e ids call (.statement pool statement)
  | recorded {call : Call} {event : AuditEvent} :
    Justifies s e ids call (.statement .write (s.audit.insert .postgres event))
  | bracket {call : Call} {c : Sent} (hBracket : c ∈ [.begin, .commit, .rollback]) :
    Justifies s e ids call c

theorem justifies_change {qs : List RowRequest} {c : Change e}
    (hTargets : call.targetIds = .ok ids) (hRequests : call.rowRequests = .ok qs)
    (hc : c.request ∈ qs) : s.Justifies e ids call (.statement .write c.statement) := by
  have hMem := Call.id?_mem_targetIds hTargets hRequests hc
  cases hId : c.request.id? with
  | some id => exact .keyed (hId ▸ hMem) (c.makes.isKeyedBy hId)
  | none =>
    obtain ⟨body, rfl⟩ := Call.eq_create_of_id?_eq_none hRequests hc hId
    obtain ⟨q, statement, hMakes⟩ := c
    cases hMakes with
    | create hInsert => exact .inserted hInsert
    | replace | patch | delete => cases hId

theorem justifies_of_arranges {task : Task} (hArranges : s.Arranges place e call task)
    (hTargets : call.targetIds = .ok ids) :
    ∀ c ∈ ((s.run place task).on { database := db }).2.log, s.Justifies e ids call c := by
  intro c hc
  cases hArranges with
  | list =>
    obtain rfl | rfl := (runList_sends _ _).mem_log db c hc
    · exact .listed (.inl rfl)
    · exact .listed (.inr rfl)
  | read hRead =>
    obtain rfl := (runRead_sends _ _ _).mem_log db c hc
    cases hTargets
    obtain ⟨key, v, hKey, hText, hBinds⟩ := Statement.read_binds hRead
    exact .keyed (List.mem_singleton_self _) ⟨key, v, [], hKey, hText, hBinds⟩
  | describe => cases hc
  | changes _ _ hRequests hRun =>
    obtain hBracket | ⟨d, hd, rfl | ⟨reply, rfl⟩⟩ := hRun.sends.mem_log db c hc
    · exact .bracket hBracket
    · exact justifies_change hTargets hRequests (List.mem_map_of_mem hd)
    · exact .recorded

theorem writable_of_begin {task : Task} (hArranges : s.Arranges place e call task)
    (hBegin : .begin ∈ ((s.run place task).on { database := db }).2.log) : e.readOnly = false := by
  cases hArranges with
  | list =>
    obtain hEq | hEq := (runList_sends _ _).mem_log db _ hBegin
    · cases hEq
    · cases hEq
  | read => cases (runRead_sends _ _ _).mem_log db _ hBegin
  | describe => cases hBegin
  | changes hWritable => exact hWritable

/-- Whatever is sent for a request on an entity, the caller has all capabilities that the call
requires, for everything that it is about. -/
theorem sends_only_permitted (hEntity : r.isOnEntity = true) (hSent : (s.exchange db r).log ≠ []) :
    ∃ (place : Call.Place) (call : Call) (e : Entity) (ids : List (Option String)),
      r.inquiry s.maxBodyBytes = .ok (.call place call) ∧
      s.catalog.entity? place.domain place.entity = some e ∧
      call.targetIds = .ok ids ∧
      (∀ id ∈ ids, s.Permits (s.trusted r.principal) place call id) ∧
      (∀ os, call.operations = .ok os → ∀ o ∈ os, some o.id ∈ ids) ∧
      (∀ c ∈ (s.exchange db r).log, s.Justifies e ids call c) ∧
      (.begin ∈ (s.exchange db r).log → e.readOnly = false) := by
  have hDeals := s.exchange_deals db r
  revert hSent hDeals
  generalize s.exchange db r = x
  intro hSent hDeals
  cases hDeals with
  | refused | unprepared => exact absurd rfl hSent
  | informed hInquiry hServer =>
    exact absurd ((Request.inquiry_isAboutServer hInquiry hServer).1.symm.trans hEntity) nofun
  | @performed place call task hInquiry hPrepare =>
    have hGuards := s.prepare_guarded (s.trusted r.principal) place call
    rw [hPrepare] at hGuards
    obtain ⟨ids, hTargets, hAllows⟩ := authorizeAll_eq_ok_iff.mp hGuards.eq_ok_of_ok
    obtain ⟨e, hFound, hArranges⟩ := arranges_of_prepare hPrepare
    refine ⟨place, call, e, ids, hInquiry, hFound, hTargets,
      fun id hId => permits_of_allows (hAllows id hId), ?_,
      justifies_of_arranges hArranges hTargets, writable_of_begin hArranges⟩
    exact fun os hOperations o ho => Call.operation_id_mem_targetIds hTargets hOperations ho

/-- The deletion of the sample item is permitted, and only its key is compared. -/
theorem sampleDeletion_permitted :
    (sampleRequest "DELETE").isOnEntity = true ∧
    (sampleShop.exchange {} (sampleRequest "DELETE")).log ≠ [] ∧
    ∃ (place : Call.Place) (call : Call) (e : Entity) (ids : List (Option String)),
      (sampleRequest "DELETE").inquiry 100 = .ok (.call place call) ∧
      call.targetIds = .ok ids ∧
      (∀ id ∈ ids, sampleShop.Permits { user := some "carol" } place call id) ∧
      sampleShop.Justifies e ids call (.statement .write sampleDeletion) ∧ e.readOnly = false := by
  have hLog : (sampleShop.exchange {} (sampleRequest "DELETE")).log =
      [.begin, .statement .write sampleDeletion, .rollback] := by
    rw [exchange_sampleDeletion]
    rfl
  have hEntity : (sampleRequest "DELETE").isOnEntity = true := by decide
  have hSent : (sampleShop.exchange {} (sampleRequest "DELETE")).log ≠ [] := by simp [hLog]
  obtain ⟨place, call, e, ids, hInquiry, -, hTargets, hPermits, -, hJustifies, hWritable⟩ :=
    sends_only_permitted hEntity hSent
  rw [principal_sampleRequest] at hPermits
  refine ⟨hEntity, hSent, place, call, e, ids, hInquiry, hTargets, hPermits,
    hJustifies _ (by simp [hLog]), hWritable (by simp [hLog])⟩

end Server

end TableGateway
