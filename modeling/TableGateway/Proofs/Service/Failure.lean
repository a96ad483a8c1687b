import TableGateway.Proofs.Json.Value
import TableGateway.Proofs.Service.Scope

/-!
# Failures

Once the database is asked, a request fails only because of what the database answers: it refuses,
or what was asked for is not there. All errors of the request itself are found before, whatever it
asks for and whichever of its items they are in.
-/

namespace TableGateway

namespace Action

variable {α β : Type} {P : ServiceError → Prop}

/-- Wherever the action starts, it fails only with errors that satisfy `P`. -/
def FailsOnly (P : ServiceError → Prop) (a : Action α) : Prop :=
  ∀ σ e, (a.on σ).1 = .error e → P e

namespace FailsOnly

theorem pure (x : α) : FailsOnly P (Pure.pure x) := nofun

theorem get : FailsOnly P MonadState.get := nofun

theorem throw {e : ServiceError} (h : P e) : FailsOnly P (MonadExcept.throw e : Action α) := by
  rintro σ e ⟨⟩
  exact h

theorem bind {a : Action α} {f : α → Action β} (ha : FailsOnly P a)
    (hf : ∀ x, FailsOnly P (f x)) : FailsOnly P (a >>= f) := by
  intro σ e h
  rw [on_bind] at h
  cases hFirst : a.on σ with
  | mk r τ =>
    rw [hFirst] at h
    cases r with
    | ok x => exact hf x τ e h
    | error e' =>
      cases h
      exact ha σ e (congrArg Prod.fst hFirst)

theorem mapM {f : α → Action β} (h : ∀ x, FailsOnly P (f x)) (xs : List α) :
    FailsOnly P (xs.mapM f) := by
  induction xs with
  | nil => exact .pure []
  | cons x xs ih =>
    rw [List.mapM_cons]
    exact (h x).bind fun y => ih.bind fun ys => .pure (y :: ys)

theorem execute (pool : Pool) (s : Statement) (h : ∀ e, P (.database e)) :
    FailsOnly P (Action.execute pool s) := by
  intro σ e hFails
  rw [on_execute] at hFails
  cases hReached : σ.database.unreachable with
  | some reason =>
    rw [hReached] at hFails
    cases hFails
    exact h _
  | none =>
    rw [hReached] at hFails
    change σ.database.reply.accepted = .error e at hFails
    cases hReply : σ.database.reply with
    | rows | affected =>
      rw [hReply] at hFails
      cases hFails
    | refused state message =>
      rw [hReply] at hFails
      cases hFails
      exact h _

theorem atomically [Inhabited α] {inside : Action α} (h : ∀ e, P (.database e))
    (hInside : FailsOnly P inside) : FailsOnly P (Action.atomically inside) := by
  intro σ e hFails
  have hCourse := atomically_course inside σ
  revert hCourse hFails
  generalize (Action.atomically inside).on σ = outcome
  intro hFails hCourse
  cases hCourse with
  | unreached | notBegun | notCommitted =>
    cases hFails
    exact h _
  | rolledBack _ hOn =>
    cases hFails
    exact hInside _ _ (congrArg Prod.fst hOn)
  | committed => cases hFails

end FailsOnly

end Action

/-- An error that only the database can tell. -/
inductive ServiceError.IsLate : ServiceError → Prop
  | database (error : DatabaseError) : IsLate (.database error)
  | notFound (what : String) : IsLate (.notFound what)

theorem ServiceError.IsLate.statusAndCode {e : ServiceError} (h : e.IsLate) :
    e.statusAndCode ∈
      [(404, "not_found"), (409, "conflict"), (500, "database_error")] := by
  cases h with
  | notFound what => simp [ServiceError.statusAndCode]
  | database error =>
    cases error with
    | refused state message =>
      rw [ServiceError.statusAndCode]
      split <;> simp
    | unreachable | noRows | noColumn | badCount => simp [ServiceError.statusAndCode]

theorem RowRequest.missing_isLate (q : RowRequest) (e : Entity) : (q.missing e).IsLate := by
  cases q with
  | create => exact .database _
  | replace | patch | delete => exact .notFound _

namespace Server

variable {s : Server} {db : Database} {r : Request} {place : Call.Place} {e : Entity}

theorem runList_failsLate (statements : ListStatements) (offset : Int) :
    Action.FailsOnly ServiceError.IsLate (runList statements offset) := by
  refine .bind (.execute _ _ .database) fun page => .bind (.execute _ _ .database) fun counted =>
    .bind .get fun session => ?_
  split
  · exact .throw (.database _)
  · exact .pure _

theorem runRead_failsLate (e : Entity) (id : String) (statement : Statement) :
    Action.FailsOnly ServiceError.IsLate (runRead e id statement) := by
  refine .bind (.execute _ _ .database) fun reply => ?_
  split
  · exact .pure _
  · exact .throw (.notFound _)

theorem carryOut_failsLate (c : Change e) :
    Action.FailsOnly ServiceError.IsLate (s.carryOut place c) := by
  refine .bind (.execute _ _ .database) fun reply => ?_
  split
  · exact .bind (.execute _ _ .database) fun _ => .pure _
  · exact .throw (c.request.missing_isLate e)

theorem Arranges.failsLate {call : Call} {task : Task} (h : s.Arranges place e call task) :
    Action.FailsOnly ServiceError.IsLate (s.run place task) := by
  cases h with
  | list => exact runList_failsLate _ _
  | read => exact runRead_failsLate _ _ _
  | describe => exact .pure _
  | @changes _ _ cs _ _ _ hRun =>
    obtain ⟨answer, -, hEq⟩ := hRun
    rw [hEq]
    exact .bind (.atomically .database (.mapM carryOut_failsLate cs)) fun _ => .pure _

end Server

namespace Response

def errorCode? (r : Response) : Option String :=
  let error? := (r.body.bind Json.readValue?).bind (Json.member? "error")
  if r.isSuccess then none
  else
    match error?.bind (Json.member? "code") with
    | some (.text code) => some code
    | _ => none

theorem errorCode?_ofError (e : ServiceError) : (ofError e).errorCode? = some e.code := by
  have hDenotes : Json.Document.Denotes (.object [(some "error",
      .object [(some "code", .text e.code), (some "message", .text e.message)])]) :=
    ⟨rfl, ⟨rfl, trivial, rfl, trivial, trivial⟩, trivial⟩
  have hRead := Json.Document.readValue?_toText hDenotes
  rw [if_pos (by simp [Json.Document.depth, Json.Document.depthOfMembers, Json.Document.maxDepth])]
    at hRead
  have hValue : ((ofError e).body.bind Json.readValue?) = some (.ofMembers [("error",
      .ofMembers [("code", .text e.code), ("message", .text e.message)])]) := hRead
  rw [errorCode?, isSuccess_ofError, hValue]
  simp [Json.member?_ofMembers]

theorem errorCode?_withoutText (r : Response) : r.withoutText.errorCode? = none := by
  have hEmpty : Json.readValue? "" = none := by
    rw [Json.readValue?, Json.Document.read?]
    simp [Json.tokens, Json.Document.ofTokens?]
  rw [errorCode?, withoutText]
  cases r.body with
  | none => simp
  | some text => simp [hEmpty]

end Response

namespace Server

variable {s : Server} {db : Database} {r : Request} {place : Call.Place} {e : Entity}

/-- The error with which the service fails on a request. -/
def failure? (s : Server) (db : Database) (r : Request) : Option ServiceError :=
  match r.inquiry s.maxBodyBytes with
  | .error _ => none
  | .ok q =>
    match ((s.answer r.principal q).on { database := db }).1 with
    | .ok _ => none
    | .error e => some e

/-- A request on an entity sends nothing, or else it succeeds or fails late. -/
theorem exchange_cases (s : Server) (db : Database) (hEntity : r.isOnEntity = true) :
    (s.exchange db r).log = [] ∨
      ∃ run : Except ServiceError Response × Session, s.exchange db r = .ofRun r run ∧
        s.failure? db r = (match run.1 with | .ok _ => none | .error e => some e) ∧
        (∀ response, run.1 = .ok response → response.isSuccess = true) ∧
        ∀ e, run.1 = .error e → e.IsLate := by
  have hDeals := s.exchange_deals db r
  revert hDeals
  generalize s.exchange db r = x
  intro hDeals
  cases hDeals with
  | refused | unprepared => exact .inl rfl
  | informed hInquiry hServer =>
    exact absurd ((Request.inquiry_isAboutServer hInquiry hServer).1.symm.trans hEntity) nofun
  | @performed place call task hInquiry hPrepare =>
    obtain ⟨e, -, hArranges⟩ := arranges_of_prepare hPrepare
    refine .inr ⟨_, rfl, ?_, fun response hRun => ?_, hArranges.failsLate _⟩
    · rw [failure?, hInquiry]
      dsimp only
      rw [answer, on_answerCall, hPrepare]
    · exact hArranges.isSuccess (Prod.ext hRun rfl)

theorem log_eq_nil_of_status (hEntity : r.isOnEntity = true)
    (h : (s.exchange db r).response.status ∈ [400, 405, 413, 415, 422]) :
    (s.exchange db r).log = [] := by
  obtain hNone | ⟨⟨outcome, σ⟩, hExchange, -, hSucceeds, hLate⟩ := s.exchange_cases db hEntity
  · exact hNone
  · rw [hExchange, Exchange.status_ofRun] at h
    cases outcome with
    | ok response =>
      have hSuccess := hSucceeds response rfl
      change response.status ∈ _ at h
      rw [Response.isSuccess, Bool.and_eq_true, decide_eq_true_eq, decide_eq_true_eq] at hSuccess
      simp only [List.mem_cons, List.not_mem_nil, or_false] at h
      omega
    | error e =>
      have hOther : ∀ x ∈ [(404, "not_found"), (409, "conflict"), (500, "database_error")],
          x.1 ∉ [400, 405, 413, 415, 422] := by decide
      exact absurd h (hOther _ (hLate e rfl).statusAndCode)

theorem log_eq_nil_of_failure (hEntity : r.isOnEntity = true) {e : ServiceError}
    (hFails : s.failure? db r = some e) (hCode : e.code = "schema_error") :
    (s.exchange db r).log = [] := by
  obtain hNone | ⟨⟨outcome, σ⟩, -, hFailure, -, hLate⟩ := s.exchange_cases db hEntity
  · exact hNone
  · cases outcome with
    | ok response => cases hFails.symm.trans hFailure
    | error e' =>
      cases hFails.symm.trans hFailure
      have hOther : ∀ x ∈ [(404, "not_found"), (409, "conflict"), (500, "database_error")],
          x.2 ≠ "schema_error" := by decide
      exact absurd hCode (hOther _ (hLate e rfl).statusAndCode)

theorem log_eq_nil_of_errorCode? (hEntity : r.isOnEntity = true)
    (h : (s.exchange db r).response.errorCode? = some "schema_error") :
    (s.exchange db r).log = [] := by
  obtain hNone | ⟨⟨outcome, σ⟩, hExchange, hFailure, hSucceeds, -⟩ :=
    s.exchange_cases db hEntity
  · exact hNone
  · by_cases hHead : r.method = "HEAD"
    · rw [hExchange, Exchange.ofRun] at h
      simp only [if_pos hHead, Response.errorCode?_withoutText] at h
      cases h
    · rw [hExchange, Exchange.ofRun] at h
      simp only [if_neg hHead] at h
      cases outcome with
      | ok response =>
        change response.errorCode? = _ at h
        rw [Response.errorCode?, if_pos (hSucceeds response rfl)] at h
        cases h
      | error e =>
        change (Response.ofError e).errorCode? = _ at h
        rw [Response.errorCode?_ofError] at h
        exact log_eq_nil_of_failure hEntity hFailure (Option.some.inj h)

theorem exchange_of_unprepared {call : Call}
    (hInquiry : r.inquiry s.maxBodyBytes = .ok (.call place call))
    (h : ∀ task, s.prepare (s.trusted r.principal) place call ≠ .ok task) :
    (s.exchange db r).response.isSuccess = false ∧ (s.exchange db r).log = [] := by
  cases hPrepare : s.prepare (s.trusted r.principal) place call with
  | ok task => exact absurd hPrepare (h task)
  | error e =>
    rw [exchange_of_failure hInquiry hPrepare, Exchange.isSuccess_ofRun]
    exact ⟨Response.isSuccess_ofError e, rfl⟩

/-- All items of a body are valid and become insertions, or the call is not prepared. -/
theorem forall_insert_of_prepare {p : Principal} {items : List Json} {task : Task}
    (hEntity : s.catalog.entity? place.domain place.entity = some e)
    (h : s.prepare p place (.create (.array items)) = .ok task) :
    ∀ item ∈ items, ∃ members m, Body.validate e item = .ok members ∧
      Mutation.insert .postgres e members = .ok m := by
  obtain ⟨-, -, h⟩ := Outcome.bind_eq_ok_iff.mp h
  obtain ⟨e', hLookUp, h⟩ := Outcome.bind_eq_ok_iff.mp h
  obtain ⟨bodies, hBodies, h⟩ := Outcome.bind_eq_ok_iff.mp h
  obtain ⟨members, hMembers, h⟩ := Outcome.bind_eq_ok_iff.mp h
  obtain ⟨rows, hRows, -⟩ := Outcome.bind_eq_ok_iff.mp h
  obtain rfl := Option.some.inj (hEntity.symm.trans (lookUpWritable_eq_ok hLookUp).1)
  have hItems : bodies = items := by
    cases items with
    | nil => cases hBodies
    | cons => exact (Except.ok.inj hBodies).symm
  subst hItems
  intro item hItem
  obtain ⟨found, hFound, hValid⟩ :=
    Outcome.exists_of_mem_of_mapM (Outcome.mapError_eq_ok_iff.mp hMembers) item hItem
  obtain ⟨m, -, hInsert⟩ := Outcome.exists_of_mem_of_mapM hRows found hFound
  exact ⟨found, m, hValid, Outcome.mapError_eq_ok_iff.mp hInsert⟩

theorem subPatches_of_not_patch {call : Call} (h : call.operation ≠ .patch) :
    call.subPatches = .ok [] := by
  cases call with
  | patchMany | patchOne => exact absurd rfl h
  | list | read | create | replace | delete | options => rfl

theorem exists_preparePatch_eq (s : Server) (p : Principal) (place : Call.Place) {call : Call}
    (h : call.operation = .patch) :
    ∃ id, s.prepare p place call = patchFault call.operations >>= s.preparePatch p place id := by
  cases call with
  | patchMany body => exact ⟨none, rfl⟩
  | patchOne id body =>
    refine ⟨some id, ?_⟩
    rw [prepare, Call.operations]
    cases PatchOperation.readAll body <;> rfl
  | list | read | create | replace | delete | options => cases h

/-- All parts of a patch become updates, or the call is not prepared. -/
theorem forall_rowPatch_of_prepare {p : Principal} {call : Call} {task : Task}
    (hEntity : s.catalog.entity? place.domain place.entity = some e)
    (h : s.prepare p place call = .ok task) :
    ∃ subs, call.subPatches = .ok subs ∧ ∀ sub ∈ subs, ∃ row, rowPatch e sub = .ok row := by
  by_cases hCall : call.operation = .patch
  · obtain ⟨id, hPrepare⟩ := s.exists_preparePatch_eq p place hCall
    rw [hPrepare] at h
    obtain ⟨os, hOperations, h⟩ := Outcome.bind_eq_ok_iff.mp h
    obtain ⟨subs, e', rows, hSplit, -, hLookUp, hRows, -⟩ := preparePatch_eq_ok h
    obtain rfl := Option.some.inj (hEntity.symm.trans (lookUpWritable_eq_ok hLookUp).1)
    have hSubs : call.subPatches = .ok subs := by
      rw [Call.subPatches, Outcome.mapError_eq_ok_iff.mp hOperations]
      exact hSplit
    refine ⟨subs, hSubs, fun sub hSub => ?_⟩
    obtain ⟨row, -, hRow⟩ := Outcome.exists_of_mem_of_mapM hRows sub hSub
    exact ⟨row, hRow⟩
  · exact ⟨[], subPatches_of_not_patch hCall, List.forall_mem_nil _⟩

/-- Nothing is sent for a request on an entity whose response tells of an error in the request or in
the schema, and nothing for several items one of which is faulty. -/
theorem input_errors_send_nothing (s : Server) (db : Database) (r : Request)
    (hEntity : r.isOnEntity = true) :
    ((s.exchange db r).response.status ∈ [400, 405, 413, 415, 422] → (s.exchange db r).log = []) ∧
    ((s.exchange db r).response.errorCode? = some "schema_error" → (s.exchange db r).log = []) ∧
    (∀ e, s.failure? db r = some e → e.code = "schema_error" → (s.exchange db r).log = []) ∧
    (∀ place call e, r.inquiry s.maxBodyBytes = .ok (.call place call) →
      s.catalog.entity? place.domain place.entity = some e →
      ((∃ items, call = .create (.array items) ∧
          ∃ item ∈ items, ∀ members m, Body.validate e item = .ok members →
            Mutation.insert .postgres e members ≠ .ok m) ∨
        (∃ fault, call.subPatches = .error fault) ∨
        ∃ subs, call.subPatches = .ok subs ∧
          ∃ sub ∈ subs, ∀ row, rowPatch e sub ≠ .ok row) →
      (s.exchange db r).response.isSuccess = false ∧ (s.exchange db r).log = []) := by
  refine ⟨log_eq_nil_of_status hEntity, log_eq_nil_of_errorCode? hEntity,
    fun e => log_eq_nil_of_failure hEntity, fun place call e hInquiry hFound hFaulty => ?_⟩
  refine exchange_of_unprepared hInquiry fun task hPrepare => ?_
  obtain ⟨items, rfl, item, hItem, hBad⟩ | ⟨fault, hFault⟩ | ⟨subs, hSubs, sub, hSub, hBad⟩ :=
    hFaulty
  · obtain ⟨members, m, hValid, hInsert⟩ := forall_insert_of_prepare hFound hPrepare item hItem
    exact hBad members m hValid hInsert
  · obtain ⟨subs, hSubs, -⟩ := forall_rowPatch_of_prepare hFound hPrepare
    cases hFault.symm.trans hSubs
  · obtain ⟨subs', hSubs', hGood⟩ := forall_rowPatch_of_prepare hFound hPrepare
    cases hSubs.symm.trans hSubs'
    obtain ⟨row, hRow⟩ := hGood sub hSub
    exact hBad row hRow

def shopWith (shop : Server) (columns : List Column) : Server :=
  { shop with catalog := ⟨[⟨"shop", [{ sampleItems with columns }], []⟩]⟩ }

/-- Two items, the second of which is none. -/
def sampleBulk : Request where
  method := "POST"
  target := "/shop/items"
  headers := [("x-user-id", "carol"), ("content-type", "application/json")]
  body := "[\x7b\"Code\":\"b\"\x7d,null]"

theorem json_sampleBulk :
    sampleBulk.json 100 = .ok (.array [.object [("Code", .text "b")], .null]) := by
  have hType : sampleBulk.saysJson = true := by decide +kernel
  have hLength : ¬ sampleBulk.bodyLimit 100 < sampleBulk.body.utf8ByteSize := by decide +kernel
  have hTokens : Json.tokens sampleBulk.body.toList =
      [.openArray, .openObject, .text (some "Code"), .colon, .text (some "b"), .closeObject,
        .comma, .null, .closeArray] := by
    simp [sampleBulk, Json.tokens_cons, Json.scanToken, Json.scanString, Json.isSpace,
      Json.characters?, Json.tokens]
  refine json_of_tokens hType hLength hTokens ?_
  simp only [Json.Document.ofTokens?, Json.Document.itemsOfTokens?, Json.Document.membersOfTokens?]
  rfl

theorem inquiry_sampleBulk :
    sampleBulk.inquiry 100 =
      .ok (.call samplePlace (.create (.array [.object [("Code", .text "b")], .null]))) := by
  have hRoute : Route.ofPath? (Uri.path sampleBulk.target) =
      some (.collection "shop".toList "items".toList) := by decide
  have hDomain : Uri.decodeSegment? "shop".toList = some "shop" := by decide +kernel
  have hEntity : Uri.decodeSegment? "items".toList = some "items" := by decide +kernel
  have hDeclared : sampleBulk.declaredLength? = none := by decide +kernel
  simp only [Request.inquiry, hDeclared, hRoute, Request.inquiryOn, Request.segment, hDomain,
    hEntity]
  change (sampleBulk.json 100).map Call.create >>= _ = _
  rw [json_sampleBulk]
  rfl

/-- A member without a column, a table without a key, and an item that is no object. -/
theorem sampleShop_sends_nothing :
    ((shopWith patchableShop [sampleKey]).exchange {} samplePatch).log = [] ∧
    ((shopWith sampleShop []).exchange {} (sampleRequest "DELETE")).log = [] ∧
    (sampleShop.exchange {} sampleBulk).log = [] := by
  refine ⟨?_, ?_, ?_⟩
  · obtain ⟨e, hPrepare, hStatus⟩ : ∃ e,
        (shopWith patchableShop [sampleKey]).prepare
          ((shopWith patchableShop [sampleKey]).trusted samplePatch.principal) samplePlace
          (.patchOne "a" sampleDocument) = .error e ∧ e.status = 422 := by
      have hPrincipal : samplePatch.principal = { user := some "carol" } := by decide +kernel
      rw [hPrincipal]
      exact ⟨_, rfl, rfl⟩
    refine (input_errors_send_nothing _ {} samplePatch (by decide)).1 ?_
    rw [exchange_of_failure inquiry_samplePatch hPrepare, Exchange.status_ofRun]
    change e.status ∈ _
    rw [hStatus]
    decide
  · have hPrepare : (shopWith sampleShop []).prepare
        ((shopWith sampleShop []).trusted (sampleRequest "DELETE").principal) samplePlace
        (.delete "a") = .error (.statement (.missingPrimaryKey "items")) := by
      rw [principal_sampleRequest]
      rfl
    refine (input_errors_send_nothing _ {} (sampleRequest "DELETE") (by decide)).2.1 ?_
    rw [exchange_of_failure (inquiry_sampleRequest (by decide) rfl) hPrepare]
    exact Response.errorCode?_ofError _
  · refine ((input_errors_send_nothing sampleShop {} sampleBulk (by decide)).2.2.2 _ _ sampleItems
      inquiry_sampleBulk rfl (.inl ⟨_, rfl, .null, by simp, ?_⟩)).2
    intro members m hValid
    cases hValid

end Server

end TableGateway
