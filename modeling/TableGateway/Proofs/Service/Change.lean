import TableGateway.Proofs.Service.Exchange

/-!
# Changes of rows

All that is done to rows is done one row after the other, and in the same way: a statement changes
the row, and once the reply shows that the row was there, the change is recorded by a statement of
its own. When all goes well, the log of the transaction is known from the replies.
-/

namespace TableGateway

def Json.members : Json → List (String × Json)
  | .object members => members
  | _ => []

def Reply.row (reply : Reply) : Json := reply.rowsJson.headD .null

/-- What is asked to be done to one row. -/
inductive RowRequest
  | create (body : Json)
  | replace (id : String) (body : Json)
  | patch (sub : SubPatch)
  | delete (id : String)

namespace RowRequest

def method : RowRequest → Method
  | .create _ => .post
  | .replace .. => .put
  | .patch _ => .patch
  | .delete _ => .delete

/-- The status that the change of the row is recorded with. -/
def status : RowRequest → Int
  | .create _ => 201
  | .replace .. | .patch _ => 200
  | .delete _ => 204

/-- Whether a reply shows that there was a row. -/
def isMet (q : RowRequest) (reply : Reply) : Bool :=
  match q with
  | .delete _ => reply.rowCount != 0
  | _ => !reply.rowsJson.isEmpty

def missing (e : Entity) : RowRequest → ServiceError
  | .create _ => .database .noRows
  | .replace id _ | .delete id => .notFound (e.resource id)
  | .patch sub => .notFound (e.resource sub.id)

/-- The id of the row. A new row has the key that it is returned with. -/
def resource (e : Entity) (reply : Reply) : RowRequest → String
  | .create _ => e.keyText reply.row
  | .replace id _ | .delete id => id
  | .patch sub => sub.id

def operations (e : Entity) (reply : Reply) : RowRequest → List PatchOperation
  | .create _ => PatchOperation.ofCreated (e.keyText reply.row) reply.row
  | .replace id body => PatchOperation.ofReplaced id body.members
  | .patch sub => sub.operations
  | .delete id => PatchOperation.ofDeleted id

/-- The statement that a request on a row of the entity is turned into. -/
inductive Makes (e : Entity) : RowRequest → Statement → Prop
  | create {members : List (String × Json)} {m : Mutation}
    (h : Mutation.insert .postgres e members = .ok m) :
    Makes e (.create (.object members)) m.statement
  | replace {id : String} {members : List (String × Json)} {m : Mutation}
    (h : Mutation.update .postgres e id members = .ok m) :
    Makes e (.replace id (.object members)) m.statement
  | patch {sub : SubPatch} {sets : List (String × Json)} {m : Mutation}
    (hSets : sub.columnSets = .ok sets) (h : Mutation.update .postgres e sub.id sets = .ok m) :
    Makes e (.patch sub) m.statement
  | delete {id : String} {statement : Statement}
    (h : Mutation.delete .postgres e id = .ok statement) :
    Makes e (.delete id) statement

end RowRequest

/-- A request on a row of the entity, with the statement that it is turned into. -/
structure Change (e : Entity) where
  request : RowRequest
  statement : Statement
  makes : request.Makes e statement

namespace Server

variable (s : Server) (place : Call.Place) {e : Entity}

/-- What is recorded of a change after this reply. -/
def eventOf (e : Entity) (q : RowRequest) (reply : Reply) : AuditEvent where
  date := s.now
  method := q.method
  domain := place.domain
  entity := e.name
  id := q.resource e reply
  status := q.status
  patch := (PatchOperation.listToDocument (q.operations e reply)).toText

def recordOf (e : Entity) (q : RowRequest) (reply : Reply) : Statement :=
  s.audit.insert .postgres (s.eventOf place e q reply)

def carryOut (c : Change e) : Action Json := do
  let reply ← Action.execute .write c.statement
  if c.request.isMet reply then
    let _ ← Action.execute .write (s.recordOf place e c.request reply)
    pure reply.row
  else throw (c.request.missing e)

def carryOutAll (cs : List (Change e)) : Action (List Json) :=
  Action.atomically (cs.mapM (s.carryOut place))

/-- What is sent when all changes are carried out, with each record right behind its change. -/
def transcript : Database → List (Change e) → List Sent
  | _, [] => []
  | db, c :: cs =>
    .statement .write c.statement ::
      .statement .write (s.recordOf place e c.request db.reply) ::
        transcript db.answered.answered cs

def Writes (cs : List (Change e)) (c : Sent) : Prop :=
  ∃ d ∈ cs, c = .statement .write d.statement ∨
    ∃ reply, c = .statement .write (s.recordOf place e d.request reply)

variable {s place}

theorem carryOut_eq (c : Change e) :
    s.carryOut place c = (do
      let reply ← Action.execute .write c.statement
      if c.request.isMet reply then
        s.recordChange place c.request.method e (c.request.resource e reply) c.request.status
          (c.request.operations e reply)
        pure reply.row
      else throw (c.request.missing e)) := by
  simp only [carryOut, recordChange, recordOf, eventOf, bind_assoc, pure_bind]

theorem run_eq_carryOut {m : Mutation} {c : Change e} {next : Option Json → Action Json}
    (hBack : m.selectBack = none) (hStatement : c.statement = m.statement)
    (hMet : ∀ reply, c.request.isMet reply = !reply.rowsJson.isEmpty)
    (hNone : next none = throw (c.request.missing e))
    (hSome : ∀ reply : Reply, next (some reply.row) = (do
      s.recordChange place c.request.method e (c.request.resource e reply) c.request.status
        (c.request.operations e reply)
      pure reply.row)) :
    m.run >>= next = s.carryOut place c := by
  rw [carryOut_eq, Mutation.run, hBack, Mutation.firstRow, hStatement]
  simp only [bind_pure, bind_assoc, pure_bind, hMet, ← hSome]
  congr 1
  funext reply
  rw [Reply.row]
  cases reply.rowsJson with
  | nil => exact hNone
  | cons row rows => rfl

theorem createRow_eq {m : Mutation} {c : Change e} {body : Json} (hBack : m.selectBack = none)
    (hRequest : c.request = .create body) (hStatement : c.statement = m.statement) :
    s.createRow place e m = s.carryOut place c :=
  run_eq_carryOut hBack hStatement (fun reply => by rw [hRequest]; rfl) (by rw [hRequest]; rfl)
    fun reply => by rw [hRequest]; rfl

theorem patchRow_eq {m : Mutation} {c : Change e} {sub : SubPatch} (hBack : m.selectBack = none)
    (hRequest : c.request = .patch sub) (hStatement : c.statement = m.statement) :
    s.patchRow place e (sub, m) = s.carryOut place c :=
  run_eq_carryOut hBack hStatement (fun reply => by rw [hRequest]; rfl) (by rw [hRequest]; rfl)
    fun reply => by rw [hRequest]; rfl

/-- A run that carries out all changes and then reports success. -/
def CarriesOut (s : Server) (place : Call.Place) (cs : List (Change e)) (run : Action Response) :
    Prop :=
  ∃ answer : List Json → Response, (∀ rows, (answer rows).isSuccess = true) ∧
    run = s.carryOutAll place cs >>= fun rows => pure (answer rows)

theorem runCreate_carriesOut {ms : List Mutation} {cs : List (Change e)} (bulk : Bool)
    (h : ms.mapM (s.createRow place e) = cs.mapM (s.carryOut place)) :
    s.CarriesOut place cs (s.runCreate place e bulk ms) := by
  refine ⟨fun rows => if bulk then .many 201 rows else .one 201 (rows.getLast?.getD .null), ?_, ?_⟩
  · intro rows
    cases bulk <;> rfl
  · rw [runCreate, carryOutAll, Action.atomically, h]
    simp only [bind_assoc, pure_bind]
    rfl

theorem runPatch_carriesOut {ms : List (SubPatch × Mutation)} {cs : List (Change e)}
    (operations : List PatchOperation)
    (h : ms.mapM (s.patchRow place e) = cs.mapM (s.carryOut place)) :
    s.CarriesOut place cs (s.runPatch place e operations ms) := by
  refine ⟨fun rows => { Response.many 200 rows with
    patchChanges := PatchOperation.headerText? operations }, fun rows => rfl, ?_⟩
  rw [runPatch, carryOutAll, Action.atomically, h]
  simp only [bind_assoc, pure_bind]
  rfl

/-- A transaction about one row, which has no result where there was no row. -/
theorem transaction_carriesOut {α : Type} {c : Change e} {body : Action (Option α)}
    {next : Option α → Action Response} (f : List Json → α) (answer : α → Response)
    (hAnswer : ∀ x, (answer x).isSuccess = true) (hSome : ∀ x, next (some x) = pure (answer x))
    (hNone : next none = throw (c.request.missing e))
    (h : body >>= Action.orThrow (c.request.missing e) =
      s.carryOut place c >>= fun row => pure (f [row])) :
    s.CarriesOut place [c] (Action.transaction body >>= next) := by
  refine ⟨fun rows => answer (f rows), fun rows => hAnswer _, ?_⟩
  have hInside : body >>= Action.orThrow (c.request.missing e) =
      [c].mapM (s.carryOut place) >>= fun rows => pure (f rows) := by
    rw [h, List.mapM_cons]
    simp only [List.mapM_nil, bind_assoc, pure_bind]
  have hNext : next = fun x? =>
      Action.orThrow (c.request.missing e) x? >>= fun x => pure (answer x) := by
    funext x?
    cases x? with
    | none => exact hNone
    | some x => exact hSome x
  rw [hNext, ← bind_assoc, Action.transaction_orThrow hInside, bind_assoc, carryOutAll]
  simp only [pure_bind]

theorem runReplace_carriesOut {id : String} {members : List (String × Json)} {m : Mutation}
    {c : Change e} (hBack : m.selectBack = none)
    (hRequest : c.request = .replace id (.object members))
    (hStatement : c.statement = m.statement) :
    s.CarriesOut place [c] (s.runReplace place e id members m) := by
  refine transaction_carriesOut (fun rows => rows.headD .null) (.one 200) (fun row => rfl)
    (fun row => rfl) (by rw [hRequest]; rfl) ?_
  simp only [bind_assoc, List.headD_cons, bind_pure]
  refine run_eq_carryOut hBack hStatement (fun reply => by rw [hRequest]; rfl) rfl fun reply => ?_
  simp only [hRequest, bind_assoc, pure_bind]
  rfl

theorem runDelete_carriesOut {id : String} {c : Change e} (hRequest : c.request = .delete id) :
    s.CarriesOut place [c] (s.runDelete place e id c.statement) := by
  refine transaction_carriesOut (fun _ => ()) (fun _ => { status := 204 }) (fun _ => rfl)
    (fun _ => rfl) (by rw [hRequest]; rfl) ?_
  rw [carryOut_eq]
  simp only [bind_assoc]
  congr 1
  funext reply
  by_cases hCount : reply.rowCount = 0
  · simp [hCount, hRequest, RowRequest.isMet, Action.orThrow]
  · simp [hCount, hRequest, RowRequest.isMet, Action.orThrow, RowRequest.method,
      RowRequest.resource, RowRequest.status, RowRequest.operations]

variable {σ τ : Session}

theorem carryOut_sends {cs : List (Change e)} {c : Change e} (h : c ∈ cs) :
    Action.Sends (s.Writes place cs) (s.carryOut place c) := by
  refine .bind (.execute ⟨c, h, .inl rfl⟩) fun reply => ?_
  split
  · exact .bind (.execute ⟨c, h, .inr ⟨reply, rfl⟩⟩) fun _ => .pure _
  · exact .throw (by cases c.request <;> exact nofun)

theorem mapM_carryOut_sends (cs : List (Change e)) :
    Action.Sends (s.Writes place cs) (cs.mapM (s.carryOut place)) :=
  .mapM fun _ h => carryOut_sends h

theorem on_carryOut_eq_ok {c : Change e} {row : Json}
    (h : (s.carryOut place c).on σ = (.ok row, τ)) :
    τ = ((σ.sent (.statement .write c.statement)).answered.sent
      (.statement .write (s.recordOf place e c.request σ.database.reply))).answered := by
  obtain ⟨reply, υ, hRow, h⟩ := Action.on_bind_eq_ok_iff.mp h
  obtain ⟨rfl, rfl⟩ := Action.on_execute_eq_ok hRow
  split at h
  · obtain ⟨reply, υ, hRecord, h⟩ := Action.on_bind_eq_ok_iff.mp h
    obtain ⟨-, rfl⟩ := Action.on_execute_eq_ok hRecord
    cases h
    rfl
  · cases h

theorem on_mapM_carryOut_eq_ok {cs : List (Change e)} {rows : List Json}
    (h : (cs.mapM (s.carryOut place)).on σ = (.ok rows, τ)) :
    τ.log = σ.log ++ s.transcript place σ.database cs := by
  induction cs generalizing σ rows with
  | nil =>
    cases h
    rw [transcript, List.append_nil]
  | cons c cs ih =>
    rw [List.mapM_cons] at h
    obtain ⟨row, υ, hFirst, h⟩ := Action.on_bind_eq_ok_iff.mp h
    obtain ⟨rows, τ', hRest, h⟩ := Action.on_bind_eq_ok_iff.mp h
    cases h
    rw [ih hRest, on_carryOut_eq_ok hFirst, transcript]
    simp [Session.sent, Session.answered]

end Server

end TableGateway
