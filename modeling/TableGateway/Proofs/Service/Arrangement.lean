import TableGateway.Proofs.Service.Authorization
import TableGateway.Proofs.Service.Change
import TableGateway.Proofs.Sql.Request

/-!
# What calls become

A call is prepared only for an entity of the catalog. It becomes a read or a description of the
entity, or else changes of all the rows that it requests, in their order.
-/

namespace TableGateway

namespace Call

/-- What is asked to be done to rows, one row after the other. -/
def rowRequests (call : Call) : Except PatchFault (List RowRequest) :=
  match call with
  | .list _ | .read .. | .options => .ok []
  | .create (.array bodies) => .ok (bodies.map .create)
  | .create body => .ok [.create body]
  | .replace id body => .ok [.replace id body]
  | .patchMany _ | .patchOne .. => call.subPatches.map fun subs => subs.map .patch
  | .delete id => .ok [.delete id]

end Call

namespace Server

variable {s : Server} {p : Principal} {place : Call.Place}

/-- What a call on the entity becomes. -/
inductive Arranges (s : Server) (place : Call.Place) (e : Entity) : Call → Task → Prop
  | list {parameters : List (String × String)} {q : QueryPlan} :
    Arranges s place e (.list parameters) (.list (Statement.list .postgres e q) q.paging.offset)
  | read {id : String} {parameters : List (String × String)} {q : QueryPlan}
    {statement : Statement} (hRead : Statement.read .postgres e q id = .ok statement) :
    Arranges s place e (.read id parameters) (.read e id statement)
  | describe : Arranges s place e .options (.describe e)
  | changes {call : Call} {task : Task} {cs : List (Change e)} (hWritable : e.readOnly = false)
    (hSome : cs ≠ []) (hRequests : call.rowRequests = .ok (cs.map Change.request))
    (hRun : s.CarriesOut place cs (s.run place task)) :
    Arranges s place e call task

theorem lookUp_eq_ok {e : Entity} (h : s.lookUp place = .ok e) :
    s.catalog.entity? place.domain place.entity = some e := by
  rw [lookUp] at h
  split at h
  · next hFound => exact Except.ok.inj h ▸ hFound
  · cases h

theorem lookUpWritable_eq_ok {e : Entity} (h : s.lookUpWritable place = .ok e) :
    s.catalog.entity? place.domain place.entity = some e ∧ e.readOnly = false := by
  obtain ⟨found, hFound, h⟩ := Outcome.bind_eq_ok_iff.mp h
  split at h
  · cases h
  · next hWritable =>
    cases h
    exact ⟨lookUp_eq_ok hFound, by simpa using hWritable⟩

theorem insert_selectBack {e : Entity} {members : List (String × Json)} {m : Mutation}
    (h : Mutation.insert .postgres e members = .ok m) : m.selectBack = none := by
  obtain ⟨assignments, -, rfl⟩ := Mutation.insert_eq_ok h
  exact Mutation.selectBack_insertion .postgres e assignments

theorem update_selectBack {e : Entity} {id : String} {members : List (String × Json)}
    {m : Mutation} (h : Mutation.update .postgres e id members = .ok m) : m.selectBack = none := by
  obtain ⟨key, v, assignments, -, -, -, rfl⟩ := Mutation.update_eq_ok h
  split
  · rfl
  · exact Mutation.selectBack_rowUpdate .postgres e key v assignments

theorem exists_changes {α β : Type} {e : Entity} {xs : List α} {ys : List β}
    {request : α → RowRequest} {f : β → Action Json}
    (h : List.Forall₂
      (fun x y => ∃ c : Change e, c.request = request x ∧ f y = s.carryOut place c) xs ys) :
    ∃ cs : List (Change e), cs.map Change.request = xs.map request ∧
      ys.mapM f = cs.mapM (s.carryOut place) := by
  induction h with
  | nil => exact ⟨[], rfl, rfl⟩
  | cons hHead _ ih =>
    obtain ⟨c, hRequest, hCarry⟩ := hHead
    obtain ⟨cs, hRequests, hCarryAll⟩ := ih
    refine ⟨c :: cs, ?_, ?_⟩
    · rw [List.map_cons, List.map_cons, hRequest, hRequests]
    · rw [List.mapM_cons, List.mapM_cons, hCarry, hCarryAll]

theorem validate_eq_ok {e : Entity} {body : Json} {members : List (String × Json)}
    (h : Body.validate e body = .ok members) : body = .object members := by
  cases body with
  | object found =>
    change Body.accept found _ = .ok members at h
    rw [Body.accept] at h
    split at h
    · cases h; rfl
    · cases h
  | _ => cases h

theorem rowRequests_create {body : Json} {bodies : List Json} (h : Body.items body = .ok bodies) :
    bodies ≠ [] ∧ (Call.create body).rowRequests = .ok (bodies.map .create) := by
  cases body with
  | array items =>
    cases items with
    | nil => cases h
    | cons item items => cases h; exact ⟨List.cons_ne_nil _ _, rfl⟩
  | _ => cases h; exact ⟨List.cons_ne_nil _ _, rfl⟩

theorem arranges_create {body : Json} {task : Task} (h : s.prepareCreate p place body = .ok task) :
    ∃ e, s.catalog.entity? place.domain place.entity = some e ∧
      s.Arranges place e (.create body) task := by
  obtain ⟨-, -, h⟩ := Outcome.bind_eq_ok_iff.mp h
  obtain ⟨e, hEntity, h⟩ := Outcome.bind_eq_ok_iff.mp h
  obtain ⟨bodies, hBodies, h⟩ := Outcome.bind_eq_ok_iff.mp h
  obtain ⟨items, hItems, h⟩ := Outcome.bind_eq_ok_iff.mp h
  obtain ⟨rows, hRows, h⟩ := Outcome.bind_eq_ok_iff.mp h
  cases h
  obtain ⟨hFound, hWritable⟩ := lookUpWritable_eq_ok hEntity
  obtain ⟨hSome, hRequests⟩ := rowRequests_create (Outcome.mapError_eq_ok_iff.mp hBodies)
  have hEach := Outcome.mapM_mapM_eq_ok (Outcome.mapError_eq_ok_iff.mp hItems) hRows
  have hChanges : ∃ cs : List (Change e), cs.map Change.request = bodies.map .create ∧
      rows.mapM (s.createRow place e) = cs.mapM (s.carryOut place) :=
    exists_changes (hEach.imp fun body m => by
      rintro ⟨members, hValid, hInsert⟩
      have hInsert := Outcome.mapError_eq_ok_iff.mp hInsert
      obtain rfl := validate_eq_ok hValid
      exact ⟨⟨_, _, .create hInsert⟩, rfl, createRow_eq (insert_selectBack hInsert) rfl rfl⟩)
  obtain ⟨cs, hMap, hCarry⟩ := hChanges
  refine ⟨e, hFound, .changes hWritable ?_ (hRequests.trans (by rw [hMap]))
    (runCreate_carriesOut _ hCarry)⟩
  rintro rfl
  exact hSome (List.map_eq_nil_iff.mp hMap.symm)

theorem arranges_replace {id : String} {body : Json} {task : Task}
    (h : s.prepareReplace p place id body = .ok task) :
    ∃ e, s.catalog.entity? place.domain place.entity = some e ∧
      s.Arranges place e (.replace id body) task := by
  obtain ⟨-, -, h⟩ := Outcome.bind_eq_ok_iff.mp h
  obtain ⟨e, hEntity, h⟩ := Outcome.bind_eq_ok_iff.mp h
  obtain ⟨members, hMembers, h⟩ := Outcome.bind_eq_ok_iff.mp h
  obtain ⟨m, hUpdate, h⟩ := Outcome.bind_eq_ok_iff.mp h
  cases h
  obtain ⟨hFound, hWritable⟩ := lookUpWritable_eq_ok hEntity
  obtain rfl := validate_eq_ok (Outcome.mapError_eq_ok_iff.mp hMembers)
  have hUpdate := Outcome.mapError_eq_ok_iff.mp hUpdate
  let c : Change e := ⟨_, _, .replace hUpdate⟩
  exact ⟨e, hFound, .changes hWritable (List.cons_ne_nil c []) rfl
    (runReplace_carriesOut (update_selectBack hUpdate) rfl rfl)⟩

theorem arranges_delete {id : String} {task : Task} (h : s.prepareDelete p place id = .ok task) :
    ∃ e, s.catalog.entity? place.domain place.entity = some e ∧
      s.Arranges place e (.delete id) task := by
  obtain ⟨-, -, h⟩ := Outcome.bind_eq_ok_iff.mp h
  obtain ⟨e, hEntity, h⟩ := Outcome.bind_eq_ok_iff.mp h
  obtain ⟨statement, hDelete, h⟩ := Outcome.bind_eq_ok_iff.mp h
  cases h
  obtain ⟨hFound, hWritable⟩ := lookUpWritable_eq_ok hEntity
  let c : Change e := ⟨_, _, .delete (Outcome.mapError_eq_ok_iff.mp hDelete)⟩
  have hRun : s.CarriesOut place [c] (s.runDelete place e id c.statement) :=
    runDelete_carriesOut rfl
  exact ⟨e, hFound, .changes hWritable (List.cons_ne_nil c []) rfl hRun⟩

theorem rowPatch_change {e : Entity} {sub : SubPatch} {row : SubPatch × Mutation}
    (h : rowPatch e sub = .ok row) :
    ∃ c : Change e, c.request = .patch sub ∧ s.patchRow place e row = s.carryOut place c := by
  obtain ⟨sets, hSets, h⟩ := Outcome.bind_eq_ok_iff.mp h
  obtain ⟨-, -, h⟩ := Outcome.bind_eq_ok_iff.mp h
  obtain ⟨m, hUpdate, h⟩ := Outcome.bind_eq_ok_iff.mp h
  cases h
  have hUpdate := Outcome.mapError_eq_ok_iff.mp hUpdate
  exact ⟨⟨_, _, .patch (Outcome.mapError_eq_ok_iff.mp hSets) hUpdate⟩, rfl,
    patchRow_eq (update_selectBack hUpdate) rfl rfl⟩

theorem preparePatch_eq_ok {id : Option String} {os : List PatchOperation} {task : Task}
    (h : s.preparePatch p place id os = .ok task) :
    ∃ subs e rows, SubPatch.split os = .ok subs ∧ subs ≠ [] ∧ s.lookUpWritable place = .ok e ∧
      subs.mapM (rowPatch e) = .ok rows ∧ task = .patch e os rows := by
  obtain ⟨subs, hSplit, h⟩ := Outcome.bind_eq_ok_iff.mp h
  split at h
  · obtain ⟨-, -, h⟩ := Outcome.bind_eq_ok_iff.mp h
    cases h
  · next hSome =>
    obtain ⟨-, -, h⟩ := Outcome.bind_eq_ok_iff.mp h
    obtain ⟨e, hEntity, h⟩ := Outcome.bind_eq_ok_iff.mp h
    obtain ⟨rows, hRows, h⟩ := Outcome.bind_eq_ok_iff.mp h
    cases h
    refine ⟨subs, e, rows, Outcome.mapError_eq_ok_iff.mp hSplit, ?_, hEntity, hRows, rfl⟩
    rintro rfl
    exact hSome rfl

theorem arranges_patch {call : Call} {id : Option String} {os : List PatchOperation} {task : Task}
    (hCall : call.rowRequests = call.subPatches.map fun subs => subs.map .patch)
    (hOperations : call.operations = .ok os) (h : s.preparePatch p place id os = .ok task) :
    ∃ e, s.catalog.entity? place.domain place.entity = some e ∧
      s.Arranges place e call task := by
  obtain ⟨subs, e, rows, hSplit, hSome, hEntity, hRows, rfl⟩ := preparePatch_eq_ok h
  obtain ⟨hFound, hWritable⟩ := lookUpWritable_eq_ok hEntity
  have hChanges : ∃ cs : List (Change e), cs.map Change.request = subs.map .patch ∧
      rows.mapM (s.patchRow place e) = cs.mapM (s.carryOut place) :=
    exists_changes ((Outcome.mapM_eq_ok_iff.mp hRows).imp fun sub row => rowPatch_change)
  obtain ⟨cs, hMap, hCarry⟩ := hChanges
  have hSubs : call.subPatches = .ok subs := by
    rw [Call.subPatches, hOperations]
    exact hSplit
  have hRequests : call.rowRequests = .ok (cs.map Change.request) := by
    rw [hCall, hSubs, hMap]
    rfl
  refine ⟨e, hFound, .changes hWritable ?_ hRequests (runPatch_carriesOut os hCarry)⟩
  rintro rfl
  exact hSome (List.map_eq_nil_iff.mp hMap.symm)

/-- A call is prepared only for an entity of the catalog, and as what it is. -/
theorem arranges_of_prepare {call : Call} {task : Task} (h : s.prepare p place call = .ok task) :
    ∃ e, s.catalog.entity? place.domain place.entity = some e ∧
      s.Arranges place e call task := by
  cases call with
  | list parameters =>
    obtain ⟨-, -, h⟩ := Outcome.bind_eq_ok_iff.mp h
    obtain ⟨e, hEntity, h⟩ := Outcome.bind_eq_ok_iff.mp h
    obtain ⟨q, -, h⟩ := Outcome.bind_eq_ok_iff.mp h
    cases h
    exact ⟨e, lookUp_eq_ok hEntity, .list⟩
  | read id parameters =>
    obtain ⟨-, -, h⟩ := Outcome.bind_eq_ok_iff.mp h
    obtain ⟨e, hEntity, h⟩ := Outcome.bind_eq_ok_iff.mp h
    obtain ⟨q, -, h⟩ := Outcome.bind_eq_ok_iff.mp h
    obtain ⟨statement, hRead, h⟩ := Outcome.bind_eq_ok_iff.mp h
    cases h
    exact ⟨e, lookUp_eq_ok hEntity, .read (Outcome.mapError_eq_ok_iff.mp hRead)⟩
  | create body => exact arranges_create h
  | replace id body => exact arranges_replace h
  | patchMany body =>
    obtain ⟨os, hRead, h⟩ := Outcome.bind_eq_ok_iff.mp h
    exact arranges_patch rfl (Outcome.mapError_eq_ok_iff.mp hRead) h
  | patchOne id body =>
    obtain ⟨os, hRead, h⟩ := Outcome.bind_eq_ok_iff.mp h
    have hOperations : (Call.patchOne id body).operations =
        .ok (os.map (PatchOperation.inResource id)) :=
      Outcome.map_eq_ok_iff.mpr ⟨os, Outcome.mapError_eq_ok_iff.mp hRead, rfl⟩
    exact arranges_patch rfl hOperations h
  | delete id => exact arranges_delete h
  | options =>
    obtain ⟨-, -, h⟩ := Outcome.bind_eq_ok_iff.mp h
    obtain ⟨e, hEntity, h⟩ := Outcome.bind_eq_ok_iff.mp h
    cases h
    exact ⟨e, lookUp_eq_ok hEntity, .describe⟩

theorem runList_sends (statements : ListStatements) (offset : Int) :
    Action.Sends
      (fun c => c = .statement .read statements.select ∨ c = .statement .read statements.count)
      (runList statements offset) := by
  refine .bind (.execute (.inl rfl)) fun page => .bind (.execute (.inr rfl)) fun counted =>
    .bind .get fun session => ?_
  split
  · exact .throw nofun
  · exact .pure _

theorem runRead_sends (e : Entity) (id : String) (statement : Statement) :
    Action.Sends (· = .statement .read statement) (runRead e id statement) := by
  refine .bind (.execute rfl) fun reply => ?_
  split
  · exact .pure _
  · exact .throw nofun

theorem CarriesOut.sends {e : Entity} {cs : List (Change e)} {run : Action Response}
    (h : s.CarriesOut place cs run) :
    Action.Sends (fun c => c ∈ [.begin, .commit, .rollback] ∨ s.Writes place cs c) run := by
  obtain ⟨answer, -, rfl⟩ := h
  refine .bind (.atomically (.inl (by simp)) (.inl (by simp)) (.inl (by simp)) ?_) fun _ => .pure _
  exact (mapM_carryOut_sends cs).mono fun c hc => .inr hc

theorem Arranges.not_denied {e : Entity} {call : Call} {task : Task}
    (h : s.Arranges place e call task) (σ : Session) :
    ((s.run place task).on σ).1 ≠ .error .forbidden := by
  cases h with
  | list => exact (runList_sends _ _ σ).2
  | read => exact (runRead_sends _ _ _ σ).2
  | describe => exact nofun
  | changes _ _ _ hRun => exact (hRun.sends σ).2

theorem Arranges.isSuccess {e : Entity} {call : Call} {task : Task} {σ τ : Session}
    {response : Response} (h : s.Arranges place e call task)
    (hRun : (s.run place task).on σ = (.ok response, τ)) : response.isSuccess = true := by
  cases h with
  | list =>
    obtain ⟨page, _, -, hRun⟩ := Action.on_bind_eq_ok_iff.mp hRun
    obtain ⟨counted, _, -, hRun⟩ := Action.on_bind_eq_ok_iff.mp hRun
    obtain ⟨session, _, -, hRun⟩ := Action.on_bind_eq_ok_iff.mp hRun
    split at hRun
    · cases hRun
    · cases hRun
      rfl
  | read =>
    obtain ⟨reply, _, -, hRun⟩ := Action.on_bind_eq_ok_iff.mp hRun
    split at hRun
    · cases hRun
      rfl
    · cases hRun
  | describe =>
    cases hRun
    rfl
  | changes _ _ _ hCarries =>
    obtain ⟨answer, hAnswer, hEq⟩ := hCarries
    rw [hEq] at hRun
    obtain ⟨rows, _, -, hRun⟩ := Action.on_bind_eq_ok_iff.mp hRun
    cases hRun
    exact hAnswer rows

def sampleDeletion : Statement :=
  Mutation.rowDeletion .postgres sampleItems sampleKey (.text "a")

theorem exchange_sampleDeletion (db : Database) :
    sampleShop.exchange db (sampleRequest "DELETE") =
      .ofRun (sampleRequest "DELETE")
        ((sampleShop.run samplePlace (.delete sampleItems "a" sampleDeletion)).on
          { database := db }) := by
  have hPrepare : sampleShop.prepare (sampleShop.trusted (sampleRequest "DELETE").principal)
      samplePlace (.delete "a") = .ok (.delete sampleItems "a" sampleDeletion) := by
    rw [principal_sampleRequest]
    rfl
  exact exchange_of_task (inquiry_sampleRequest (by decide) rfl) hPrepare

def sampleRecord : Statement :=
  sampleShop.recordOf samplePlace sampleItems (.delete "a") (.affected 1)

end Server

end TableGateway
