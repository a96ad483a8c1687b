import TableGateway.Http.Answer
import TableGateway.Proofs.Outcome
import TableGateway.Proofs.Service.Session

/-!
# Exchanges

A request, its response, and what is sent to the database in between. A request asks for a call
only on the route of an entity, and with a method that the call answers to. Of a request that comes
to nothing before its task runs, nothing is sent.
-/

namespace TableGateway

def Route.isOfEntity : Route → Bool
  | .collection .. | .resource .. => true
  | .health | .ready | .version => false

def Request.isOnEntity (r : Request) : Bool :=
  (Route.ofPath? (Uri.path r.target)).any Route.isOfEntity

/-- The methods that ask for such a call. -/
def Call.methods : Call → List String
  | .list _ | .read .. => ["GET", "HEAD"]
  | .create _ => ["POST"]
  | .replace .. => ["PUT"]
  | .patchMany _ | .patchOne .. => ["PATCH"]
  | .delete _ => ["DELETE"]
  | .options => ["OPTIONS"]

def Inquiry.isAboutServer : Inquiry → Bool
  | .health | .ready | .version => true
  | .call .. => false

namespace Request

variable {r : Request} {most : Nat} {call : Call} {q : Inquiry}

theorem mem_methods_of_json {ofBody : Json → Call} {name : String} (hName : r.method = name)
    (hMethods : ∀ body, (ofBody body).methods = [name])
    (h : (r.json most).map ofBody = .ok call) : r.method ∈ call.methods := by
  obtain ⟨body, -, rfl⟩ := Outcome.map_eq_ok_iff.mp h
  rw [hMethods, hName]
  exact List.mem_singleton_self name

theorem mem_methods_of_collectionCall {domain entity : List Char}
    (hMethod : r.method ∈ (Route.collection domain entity).methods)
    (h : r.collectionCall most = .ok call) : r.method ∈ call.methods := by
  rw [collectionCall] at h
  split at h
  · next hPost => exact mem_methods_of_json hPost (fun _ => rfl) h
  · next hPatch => exact mem_methods_of_json hPatch (fun _ => rfl) h
  · next hOptions =>
    cases h
    rw [hOptions]
    exact List.mem_singleton_self _
  · next hPost hPatch hOptions =>
    cases h
    simp only [Route.methods, Call.methods, List.mem_cons, List.not_mem_nil] at hMethod ⊢
    tauto

theorem mem_methods_of_resourceCall {domain entity segment : List Char} {id : String}
    (hMethod : r.method ∈ (Route.resource domain entity segment).methods)
    (h : r.resourceCall most id = .ok call) : r.method ∈ call.methods := by
  rw [resourceCall] at h
  split at h
  · next hPut => exact mem_methods_of_json hPut (fun _ => rfl) h
  · next hPatch => exact mem_methods_of_json hPatch (fun _ => rfl) h
  · next hDelete =>
    cases h
    rw [hDelete]
    exact List.mem_singleton_self _
  · next hPut hPatch hDelete =>
    cases h
    simp only [Route.methods, Call.methods, List.mem_cons, List.not_mem_nil] at hMethod ⊢
    tauto

theorem inquiryOn_eq_ok {route : Route} (hMethod : r.method ∈ route.methods)
    (h : r.inquiryOn most route = .ok q) :
    (q.isAboutServer = true ∧ route.isOfEntity = false ∧ r.method ∈ ["GET", "HEAD"]) ∨
      ∃ place call, q = .call place call ∧ route.isOfEntity = true ∧ r.method ∈ call.methods := by
  cases route with
  | health | ready | version =>
    cases h
    exact .inl ⟨rfl, rfl, hMethod⟩
  | collection domain entity =>
    obtain ⟨_, -, h⟩ := Outcome.bind_eq_ok_iff.mp h
    obtain ⟨_, -, h⟩ := Outcome.bind_eq_ok_iff.mp h
    obtain ⟨call, hCall, h⟩ := Outcome.bind_eq_ok_iff.mp h
    cases h
    exact .inr ⟨_, call, rfl, rfl, mem_methods_of_collectionCall hMethod hCall⟩
  | resource domain entity segment =>
    obtain ⟨_, -, h⟩ := Outcome.bind_eq_ok_iff.mp h
    obtain ⟨_, -, h⟩ := Outcome.bind_eq_ok_iff.mp h
    obtain ⟨_, -, h⟩ := Outcome.bind_eq_ok_iff.mp h
    obtain ⟨call, hCall, h⟩ := Outcome.bind_eq_ok_iff.mp h
    cases h
    exact .inr ⟨_, call, rfl, rfl, mem_methods_of_resourceCall hMethod hCall⟩

theorem inquiry_eq_ok (h : r.inquiry most = .ok q) :
    (q.isAboutServer = true ∧ r.isOnEntity = false ∧ r.method ∈ ["GET", "HEAD"]) ∨
      ∃ place call, q = .call place call ∧ r.isOnEntity = true ∧ r.method ∈ call.methods := by
  rw [inquiry] at h
  split at h
  · cases h
  · split at h
    · cases h
    · next route hRoute =>
      split at h
      · next hMethod =>
        rw [isOnEntity, hRoute]
        exact inquiryOn_eq_ok (List.contains_iff_mem.mp hMethod) h
      · cases h

/-- A call is about an entity, and it answers to the method of the request. -/
theorem inquiry_call {place : Call.Place} (h : r.inquiry most = .ok (.call place call)) :
    r.isOnEntity = true ∧ r.method ∈ call.methods := by
  obtain ⟨hServer, -⟩ | ⟨place, call, hEq, hCall⟩ := inquiry_eq_ok h
  · cases hServer
  · cases hEq
    exact hCall

theorem inquiry_isAboutServer (h : r.inquiry most = .ok q) (hServer : q.isAboutServer = true) :
    r.isOnEntity = false ∧ r.method ∈ ["GET", "HEAD"] := by
  obtain ⟨-, hMethod⟩ | ⟨place, call, rfl, -⟩ := inquiry_eq_ok h
  · exact hMethod
  · cases hServer

end Request

/-- A response to a request, with the log of what was sent for it. -/
structure Exchange where
  response : Response
  log : List Sent

def Response.isSuccess (r : Response) : Bool := 200 ≤ r.status && r.status < 300

def Response.ofOutcome : Except ServiceError Response → Response
  | .ok response => response
  | .error e => .ofError e

namespace ServiceError

theorem status_ge (e : ServiceError) : 400 ≤ e.status := by
  rcases e with ⟨_ | _⟩ | _ | _ | _ | _ | ⟨_ | ⟨state, _⟩ | _ | _⟩ | _
  case database.refused => rw [status, statusAndCode]; split <;> decide
  all_goals exact Nat.le_of_ble_eq_true rfl

theorem status_eq_forbidden_iff {e : ServiceError} : e.status = 403 ↔ e = .forbidden := by
  constructor
  · rcases e with ⟨_ | _⟩ | _ | _ | _ | _ | ⟨_ | ⟨state, _⟩ | _ | _⟩ | _
    case database.refused => rw [status, statusAndCode]; split <;> exact nofun
    case forbidden => exact fun _ => rfl
    all_goals exact nofun
  · rintro rfl
    rfl

end ServiceError

theorem Response.isSuccess_ofError (e : ServiceError) : (Response.ofError e).isSuccess = false := by
  have hStatus : (Response.ofError e).status = e.status := rfl
  have hError := e.status_ge
  rw [isSuccess, hStatus]
  simp
  omega

def Exchange.ofRun (r : Request) (run : Except ServiceError Response × Session) : Exchange where
  response :=
    let response := Response.ofOutcome run.1
    if r.method = "HEAD" then response.withoutText else response
  log := run.2.log

theorem Exchange.status_ofRun (r : Request) (run : Except ServiceError Response × Session) :
    (Exchange.ofRun r run).response.status = (Response.ofOutcome run.1).status := by
  rw [ofRun]
  dsimp only
  split <;> rfl

theorem Exchange.isSuccess_ofRun (r : Request) (run : Except ServiceError Response × Session) :
    (Exchange.ofRun r run).response.isSuccess = (Response.ofOutcome run.1).isSuccess := by
  rw [Response.isSuccess, Response.isSuccess, status_ofRun]

theorem Refusal.isSuccess_response (refusal : Refusal) : refusal.response.isSuccess = false := by
  cases refusal <;> rfl

namespace Server

variable {s : Server} {db : Database} {r : Request}

/-- The exchange of a request with a server whose database behaves in this way. -/
def exchange (s : Server) (db : Database) (r : Request) : Exchange :=
  let (response, session) := (s.respond r).run { database := db }
  ⟨response, session.log⟩

theorem exchange_of_refusal {refusal : Refusal} (h : r.inquiry s.maxBodyBytes = .error refusal) :
    s.exchange db r = ⟨refusal.response, []⟩ := by
  rw [exchange, respond, h]
  rfl

theorem exchange_of_inquiry {q : Inquiry} (h : r.inquiry s.maxBodyBytes = .ok q) :
    s.exchange db r = .ofRun r ((s.answer r.principal q).on { database := db }) := by
  have hRespondTo : (s.respondTo r.principal q).run { database := db } =
      (Response.ofOutcome ((s.answer r.principal q).on { database := db }).1,
        ((s.answer r.principal q).on { database := db }).2) := by
    rw [respondTo, StateT.run_bind]
    change (StateT.run (match ((s.answer r.principal q).on { database := db }).1 with
        | .ok response => pure response
        | .error e => pure (Response.ofError e))
      ((s.answer r.principal q).on { database := db }).2 : Id (Response × Session)) = _
    cases ((s.answer r.principal q).on { database := db }).1 <;> rfl
  rw [exchange, respond, h]
  simp only [StateT.run_bind, hRespondTo]
  rfl

theorem on_answerCall (p : Principal) (place : Call.Place) (call : Call) (σ : Session) :
    (s.answerCall p place call).on σ =
      match s.prepare (s.trusted p) place call with
      | .ok task => (s.run place task).on σ
      | .error e => (.error e, σ) := by
  rw [answerCall, Action.on_bind, Action.on_ofExcept]
  cases s.prepare (s.trusted p) place call <;> rfl

theorem exchange_of_failure {place : Call.Place} {call : Call} {e : ServiceError}
    (hInquiry : r.inquiry s.maxBodyBytes = .ok (.call place call))
    (hPrepare : s.prepare (s.trusted r.principal) place call = .error e) :
    s.exchange db r = .ofRun r (.error e, { database := db }) := by
  rw [exchange_of_inquiry hInquiry, answer, on_answerCall, hPrepare]

theorem exchange_of_task {place : Call.Place} {call : Call} {task : Task}
    (hInquiry : r.inquiry s.maxBodyBytes = .ok (.call place call))
    (hPrepare : s.prepare (s.trusted r.principal) place call = .ok task) :
    s.exchange db r = .ofRun r ((s.run place task).on { database := db }) := by
  rw [exchange_of_inquiry hInquiry, answer, on_answerCall, hPrepare]

/-- How a request may be dealt with. -/
inductive Deals (s : Server) (db : Database) (r : Request) : Exchange → Prop
  | refused {refusal : Refusal} (hInquiry : r.inquiry s.maxBodyBytes = .error refusal) :
    Deals s db r ⟨refusal.response, []⟩
  | informed {q : Inquiry} (hInquiry : r.inquiry s.maxBodyBytes = .ok q)
    (hServer : q.isAboutServer = true) :
    Deals s db r (.ofRun r ((s.answer r.principal q).on { database := db }))
  | unprepared {place : Call.Place} {call : Call} {e : ServiceError}
    (hInquiry : r.inquiry s.maxBodyBytes = .ok (.call place call))
    (hPrepare : s.prepare (s.trusted r.principal) place call = .error e) :
    Deals s db r (.ofRun r (.error e, { database := db }))
  | performed {place : Call.Place} {call : Call} {task : Task}
    (hInquiry : r.inquiry s.maxBodyBytes = .ok (.call place call))
    (hPrepare : s.prepare (s.trusted r.principal) place call = .ok task) :
    Deals s db r (.ofRun r ((s.run place task).on { database := db }))

theorem exchange_deals (s : Server) (db : Database) (r : Request) :
    s.Deals db r (s.exchange db r) := by
  cases hInquiry : r.inquiry s.maxBodyBytes with
  | error refusal => exact exchange_of_refusal hInquiry ▸ .refused hInquiry
  | ok q =>
    cases q with
    | health | ready | version => exact exchange_of_inquiry hInquiry ▸ .informed hInquiry rfl
    | call place call =>
      cases hPrepare : s.prepare (s.trusted r.principal) place call with
      | error e => exact exchange_of_failure hInquiry hPrepare ▸ .unprepared hInquiry hPrepare
      | ok task => exact exchange_of_task hInquiry hPrepare ▸ .performed hInquiry hPrepare

def sampleKey : Column := { name := "Code", type := .text, primaryKey := true }

def sampleItems : Entity where
  name := "items"
  schema := "shop"
  readOnly := false
  columns := [sampleKey, { name := "Name", type := .text }]

/-- A shop in which a user may delete one item. -/
def sampleShop : Server where
  catalog := ⟨[⟨"shop", [sampleItems], []⟩]⟩
  gate := [⟨.user "carol", "shop", some "items", some "a", "delete"⟩]
  limits := {}
  audit := {}
  trustRoleHeaders := true
  maxBodyBytes := 100
  now := ⟨0, 0⟩

def samplePlace : Call.Place := ⟨"shop", "items"⟩

def sampleRequest (method : String) : Request where
  method
  target := "/shop/items/a"
  headers := [("x-user-id", "carol")]

theorem route_sampleRequest :
    Route.ofPath? (Uri.path "/shop/items/a") =
      some (.resource "shop".toList "items".toList "a".toList) := by
  decide

theorem principal_sampleRequest (method : String) :
    (sampleRequest method).principal = { user := some "carol" } := by
  change (sampleRequest "").principal = _
  decide +kernel

theorem inquiry_of_route {r : Request} {call : Call} {segment : List Char} {id : String}
    (hRoute : Route.ofPath? (Uri.path r.target) =
      some (.resource "shop".toList "items".toList segment))
    (hId : Uri.decodeSegment? segment = some id) (hLength : r.declaredLength? = none)
    (hMethod : ["GET", "HEAD", "PUT", "PATCH", "DELETE"].contains r.method = true)
    (hCall : r.resourceCall 100 id = .ok call) :
    r.inquiry 100 = .ok (.call samplePlace call) := by
  have hDomain : Uri.decodeSegment? "shop".toList = some "shop" := by decide +kernel
  have hEntity : Uri.decodeSegment? "items".toList = some "items" := by decide +kernel
  have hInquiryOn : r.inquiryOn 100 (.resource "shop".toList "items".toList segment) =
      .ok (.call samplePlace call) := by
    simp only [Request.inquiryOn, Request.segment, hDomain, hEntity, hId]
    change (r.resourceCall 100 id >>= _) = _
    rw [hCall]
    rfl
  simp only [Request.inquiry, hLength, hRoute, hInquiryOn]
  rw [if_neg (by simp)]
  exact if_pos hMethod

/-- A request is a call on the sample item because of its target, whatever its body is. -/
theorem inquiry_of_target {r : Request} {call : Call} (hTarget : r.target = "/shop/items/a")
    (hLength : r.declaredLength? = none)
    (hMethod : ["GET", "HEAD", "PUT", "PATCH", "DELETE"].contains r.method = true)
    (hCall : r.resourceCall 100 "a" = .ok call) :
    r.inquiry 100 = .ok (.call samplePlace call) := by
  have hId : Uri.decodeSegment? "a".toList = some "a" := by decide +kernel
  exact inquiry_of_route (hTarget ▸ route_sampleRequest) hId hLength hMethod hCall

theorem inquiry_sampleRequest {method : String} {call : Call}
    (hMethod : ["GET", "HEAD", "PUT", "PATCH", "DELETE"].contains method = true)
    (hCall : (sampleRequest method).resourceCall 100 "a" = .ok call) :
    (sampleRequest method).inquiry 100 = .ok (.call samplePlace call) := by
  have hLength : (sampleRequest method).declaredLength? = none := by
    change (sampleRequest "").declaredLength? = none
    decide +kernel
  exact inquiry_of_target rfl hLength hMethod hCall

end Server

end TableGateway
