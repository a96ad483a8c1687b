import TableGateway.Proofs.Filter.Conversion
import TableGateway.Proofs.Service.Failure
import TableGateway.Proofs.Service.Permission
import TableGateway.Proofs.Service.Reach
import TableGateway.Proofs.Sql.Accepted

/-!
# Literals that are never sent

The literals of a request stand in its filter, in the strings of its body, and in its ids. One that
its column does not take is an error of the client, for which nothing is sent to the database.
-/

namespace TableGateway

namespace RowRequest

variable {e : Entity} {column : Column} {text : String} {q : RowRequest}

def members? : RowRequest → Option (List (String × Json))
  | .create (.object members) | .replace _ (.object members) => some members
  | .patch sub => sub.columnSets.toOption
  | _ => none

/-- The text is an id, or a string of the body for the column that it names. -/
inductive Hands (e : Entity) (column : Column) (text : String) (q : RowRequest) : Prop
  | id (hKey : e.primaryKey? = some column) (hId : q.id? = some text)
  | member {members : List (String × Json)} {name : String} (hMembers : q.members? = some members)
      (hMember : (name, .text text) ∈ members) (hColumn : e.column? name = some column)

/-- The id is a value of the key, and the members fit their columns. -/
structure Valid (e : Entity) (q : RowRequest) : Prop where
  id : ∀ id, q.id? = some id → ∃ value, e.keyValue id = .ok value
  members : ∀ members, q.members? = some members → ∀ member ∈ members, ∃ c, Body.Fits e member c

theorem Valid.accepts (h : q.Valid e) (hHands : q.Hands e column text) : column.Accepts text := by
  cases hHands with
  | id hKey hId =>
    obtain ⟨⟨key, v⟩, hValue⟩ := h.id text hId
    obtain ⟨hKey', hText⟩ := Entity.keyValue_eq_ok_iff.mp hValue
    cases hKey.symm.trans hKey'
    exact Column.accepts_of_answers (column.answers_ofText text) hText
  | member hMembers hMember hColumn =>
    obtain ⟨c, hFits⟩ := h.members _ hMembers _ hMember
    cases hColumn.symm.trans hFits.column
    obtain ⟨v, hValue⟩ := hFits.value
    exact Column.accepts_of_answers (column.answers_ofJson text) hValue

end RowRequest

/-- The text is handed over as a literal for the column: it is compared in the filter, it is an id,
or it stands in the body. -/
inductive Call.Hands (e : Entity) (column : Column) (text : String) (call : Call) : Prop
  | filter {id : Option String} {parameters : List (String × String)} {o : QueryOptions}
      {raw : String} {f : Filter} {c : Condition}
      (hReading : call.reading? = some (id, parameters))
      (hOptions : QueryOptions.ofParameters parameters = .ok o) (hRaw : o.filter = some raw)
      (hFilter : Filter.compile e.asText raw = .ok f) (hCondition : c ∈ f.conditions)
      (hCompares : c.Compares e column text)
  | readId {parameters : List (String × String)} (hReading : call = .read text parameters)
      (hKey : e.primaryKey? = some column)
  | row {requests : List RowRequest} {q : RowRequest} (hRequests : call.rowRequests = .ok requests)
      (hRequest : q ∈ requests) (hHands : q.Hands e column text)

namespace Server

variable {s : Server} {db : Database} {r : Request} {p : Principal} {place : Call.Place}
  {e : Entity} {column : Column} {text : String} {call : Call} {task : Task}
  {requests : List RowRequest}

theorem valid_create {body : Json} (hFound : s.catalog.entity? place.domain place.entity = some e)
    (hRequests : (Call.create body).rowRequests = .ok requests)
    (h : s.prepareCreate p place body = .ok task) : ∀ q ∈ requests, q.Valid e := by
  obtain ⟨-, -, h⟩ := Outcome.bind_eq_ok_iff.mp h
  obtain ⟨e', hLookUp, h⟩ := Outcome.bind_eq_ok_iff.mp h
  obtain ⟨bodies, hBodies, h⟩ := Outcome.bind_eq_ok_iff.mp h
  obtain ⟨items, hItems, -⟩ := Outcome.bind_eq_ok_iff.mp h
  cases hFound.symm.trans (lookUpWritable_eq_ok hLookUp).1
  cases hRequests.symm.trans (rowRequests_create (Outcome.mapError_eq_ok_iff.mp hBodies)).2
  rw [List.forall_mem_map]
  intro body hBody
  obtain ⟨members, -, hValid⟩ :=
    Outcome.exists_of_mem_of_mapM (Outcome.mapError_eq_ok_iff.mp hItems) body hBody
  obtain ⟨rfl, hFits⟩ := Body.validate_eq_ok_iff.mp hValid
  exact ⟨nofun, by rintro _ ⟨⟩; exact hFits⟩

theorem valid_replace {id : String} {body : Json}
    (hFound : s.catalog.entity? place.domain place.entity = some e)
    (h : s.prepareReplace p place id body = .ok task) : (RowRequest.replace id body).Valid e := by
  obtain ⟨-, -, h⟩ := Outcome.bind_eq_ok_iff.mp h
  obtain ⟨e', hLookUp, h⟩ := Outcome.bind_eq_ok_iff.mp h
  obtain ⟨members, hValid, h⟩ := Outcome.bind_eq_ok_iff.mp h
  obtain ⟨m, hUpdate, -⟩ := Outcome.bind_eq_ok_iff.mp h
  cases hFound.symm.trans (lookUpWritable_eq_ok hLookUp).1
  obtain ⟨rfl, hFits⟩ := Body.validate_eq_ok_iff.mp (Outcome.mapError_eq_ok_iff.mp hValid)
  obtain ⟨value, hKey, -⟩ := Outcome.bind_eq_ok_iff.mp (Outcome.mapError_eq_ok_iff.mp hUpdate)
  exact ⟨by rintro _ ⟨⟩; exact ⟨value, hKey⟩, by rintro _ ⟨⟩; exact hFits⟩

theorem valid_of_rowPatch {sub : SubPatch} {row : SubPatch × Mutation}
    (h : rowPatch e sub = .ok row) : (RowRequest.patch sub).Valid e := by
  obtain ⟨sets, hSets, h⟩ := Outcome.bind_eq_ok_iff.mp h
  obtain ⟨⟨⟩, hValid, h⟩ := Outcome.bind_eq_ok_iff.mp h
  obtain ⟨m, hUpdate, -⟩ := Outcome.bind_eq_ok_iff.mp h
  have hStorable := Body.validateSets_eq_ok (Outcome.mapError_eq_ok_iff.mp hValid)
  obtain ⟨value, hKey, -⟩ := Outcome.bind_eq_ok_iff.mp (Outcome.mapError_eq_ok_iff.mp hUpdate)
  refine ⟨by rintro _ ⟨⟩; exact ⟨value, hKey⟩, fun members hMembers set hSet => ?_⟩
  rw [RowRequest.members?, Outcome.mapError_eq_ok_iff.mp hSets] at hMembers
  cases hMembers
  obtain ⟨c, hStores⟩ := hStorable set hSet
  exact ⟨c, hStores.fits⟩

theorem valid_of_prepare (hFound : s.catalog.entity? place.domain place.entity = some e)
    (hRequests : call.rowRequests = .ok requests) (h : s.prepare p place call = .ok task) :
    ∀ q ∈ requests, q.Valid e := by
  have hPatch (hCall : call.rowRequests = call.subPatches.map fun subs => subs.map .patch) :
      ∀ q ∈ requests, q.Valid e := by
    obtain ⟨subs, hSubs, hRows⟩ := forall_rowPatch_of_prepare hFound h
    rw [hCall, hSubs] at hRequests
    cases hRequests
    rw [List.forall_mem_map]
    intro sub hSub
    obtain ⟨row, hRow⟩ := hRows sub hSub
    exact valid_of_rowPatch hRow
  cases call with
  | list | read | options =>
    cases hRequests
    exact List.forall_mem_nil _
  | create body => exact valid_create hFound hRequests h
  | replace id body =>
    cases hRequests
    exact List.forall_mem_singleton.mpr (valid_replace hFound h)
  | patchMany | patchOne => exact hPatch rfl
  | delete id =>
    cases hRequests
    obtain ⟨-, -, h⟩ := Outcome.bind_eq_ok_iff.mp h
    obtain ⟨e', hLookUp, h⟩ := Outcome.bind_eq_ok_iff.mp h
    obtain ⟨statement, hDelete, -⟩ := Outcome.bind_eq_ok_iff.mp h
    cases hFound.symm.trans (lookUpWritable_eq_ok hLookUp).1
    obtain ⟨value, hKey, -⟩ := Outcome.bind_eq_ok_iff.mp (Outcome.mapError_eq_ok_iff.mp hDelete)
    exact List.forall_mem_singleton.mpr ⟨by rintro _ ⟨⟩; exact ⟨value, hKey⟩, nofun⟩

/-- Of a call that is prepared, every column takes the literals that it is handed. -/
theorem accepts_of_prepare (hFound : s.catalog.entity? place.domain place.entity = some e)
    (h : s.prepare p place call = .ok task) (hHands : call.Hands e column text) :
    column.Accepts text := by
  cases hHands with
  | filter hReading hOptions hRaw hFilter hCondition hCompares =>
    obtain ⟨e', o, q, hFound', hOptions', hCompile, -⟩ := exists_plan hReading h
    cases hFound.symm.trans hFound'
    cases hOptions.symm.trans hOptions'
    have hKept := (QueryPlan.compile_eq_ok hCompile).2.2.1
    rw [hRaw] at hKept
    obtain ⟨g, hRead, -⟩ := Outcome.map_eq_ok_iff.mp hKept
    obtain ⟨hAccepts, -⟩ | ⟨fault, hFault, -⟩ := Filter.compile_literals hFilter
    · exact hAccepts _ hCondition column text hCompares
    · cases hRead.symm.trans hFault
  | readId hReading hKey =>
    subst hReading
    obtain ⟨-, -, h⟩ := Outcome.bind_eq_ok_iff.mp h
    obtain ⟨e', hLookUp, h⟩ := Outcome.bind_eq_ok_iff.mp h
    obtain ⟨q, -, h⟩ := Outcome.bind_eq_ok_iff.mp h
    obtain ⟨statement, hRead, -⟩ := Outcome.bind_eq_ok_iff.mp h
    cases hFound.symm.trans (lookUp_eq_ok hLookUp)
    obtain ⟨key, v, hKey', hText, -⟩ := Statement.read_eq_ok (Outcome.mapError_eq_ok_iff.mp hRead)
    cases hKey.symm.trans hKey'
    exact Column.accepts_of_answers (column.answers_ofText text) hText
  | row hRequests hRequest hHands =>
    exact (valid_of_prepare hFound hRequests h _ hRequest).accepts hHands

section NoDatabase

open Outcome

variable (fault : DatabaseError)

theorem authorize_ne_database (op : Operation) (id : Option String) :
    s.authorize p place op id ≠ .error (.database fault) := by
  rw [authorize, Gate.authorize]
  split <;> rintro ⟨⟩

theorem lookUp_ne_database : s.lookUp place ≠ .error (.database fault) := by
  rw [lookUp]
  split <;> rintro ⟨⟩

theorem lookUpWritable_ne_database : s.lookUpWritable place ≠ .error (.database fault) := by
  refine bind_ne_error (lookUp_ne_database fault) fun e => ?_
  split <;> rintro ⟨⟩

theorem plan_ne_database (e : Entity) (parameters : List (String × String)) :
    s.plan e parameters ≠ .error (.database fault) :=
  bind_ne_error (mapError_ne_error nofun) fun _ => mapError_ne_error nofun

theorem rowPatch_ne_database (e : Entity) (sub : SubPatch) :
    rowPatch e sub ≠ .error (.database fault) :=
  bind_ne_error (mapError_ne_error nofun) fun _ =>
    bind_ne_error (mapError_ne_error nofun) fun _ =>
      bind_ne_error (mapError_ne_error nofun) fun _ => nofun

theorem preparePatch_ne_database (id : Option String) (os : List PatchOperation) :
    s.preparePatch p place id os ≠ .error (.database fault) := by
  refine bind_ne_error (mapError_ne_error nofun) fun subs => ?_
  split
  · exact bind_ne_error (authorize_ne_database fault _ _) fun _ => nofun
  · exact bind_ne_error (forM_ne_error (fun _ => authorize_ne_database fault _ _) _) fun _ =>
      bind_ne_error (lookUpWritable_ne_database fault) fun e =>
        bind_ne_error (mapM_ne_error (rowPatch_ne_database fault e) _) fun _ => nofun

/-- A call is prepared without the database. -/
theorem prepare_ne_database (p : Principal) (place : Call.Place) (call : Call) :
    s.prepare p place call ≠ .error (.database fault) := by
  have hRequired (op : Operation) (id : Option String) :
      s.authorize p place op id ≠ .error (.database fault) := authorize_ne_database fault op id
  have hFound : s.lookUp place ≠ .error (.database fault) := lookUp_ne_database fault
  have hWritable : s.lookUpWritable place ≠ .error (.database fault) :=
    lookUpWritable_ne_database fault
  cases call with
  | list parameters =>
    exact bind_ne_error (hRequired _ _) fun _ => bind_ne_error hFound fun e =>
      bind_ne_error (plan_ne_database fault e parameters) fun _ => nofun
  | read id parameters =>
    exact bind_ne_error (hRequired _ _) fun _ => bind_ne_error hFound fun e =>
      bind_ne_error (plan_ne_database fault e parameters) fun _ =>
        bind_ne_error (mapError_ne_error nofun) fun _ => nofun
  | create body =>
    exact bind_ne_error (hRequired _ _) fun _ => bind_ne_error hWritable fun e =>
      bind_ne_error (mapError_ne_error nofun) fun _ =>
        bind_ne_error (mapError_ne_error nofun) fun items =>
          bind_ne_error (mapM_ne_error (fun _ => mapError_ne_error nofun) items) fun _ => nofun
  | replace id body =>
    exact bind_ne_error (hRequired _ _) fun _ => bind_ne_error hWritable fun e =>
      bind_ne_error (mapError_ne_error nofun) fun _ =>
        bind_ne_error (mapError_ne_error nofun) fun _ => nofun
  | patchMany body | patchOne id body =>
    exact bind_ne_error (mapError_ne_error nofun) fun _ => preparePatch_ne_database fault _ _
  | delete id =>
    exact bind_ne_error (hRequired _ _) fun _ => bind_ne_error hWritable fun e =>
      bind_ne_error (mapError_ne_error nofun) fun _ => nofun
  | options =>
    exact bind_ne_error (hRequired _ _) fun _ => bind_ne_error hFound fun e => nofun

end NoDatabase

theorem status_of_prepare_eq_error {error : ServiceError}
    (h : s.prepare p place call = .error error) :
    error.status ∈ [400, 403, 404, 405, 422] ∨
      ∃ name, error = .statement (.missingPrimaryKey name) := by
  rcases error with ⟨_ | name⟩ | _ | _ | _ | _ | fault | _
  case statement.missingPrimaryKey => exact .inr ⟨name, rfl⟩
  case database => exact absurd h (prepare_ne_database fault p place call)
  all_goals exact .inl (by simp [ServiceError.status, ServiceError.statusAndCode])

/-- A literal that its column does not take. -/
theorem exchange_of_malformed (hInquiry : r.inquiry s.maxBodyBytes = .ok (.call place call))
    (hFound : s.catalog.entity? place.domain place.entity = some e)
    (hHands : call.Hands e column text) (hMalformed : ¬ column.Accepts text) :
    (s.exchange db r).log = [] ∧
      ((s.exchange db r).response.status ∈ [400, 403, 404, 405, 422] ∨
        ∃ name, s.failure? db r = some (.statement (.missingPrimaryKey name))) := by
  cases hPrepare : s.prepare (s.trusted r.principal) place call with
  | ok task => exact absurd (accepts_of_prepare hFound hPrepare hHands) hMalformed
  | error error =>
    have hExchange : s.exchange db r = .ofRun r (.error error, { database := db }) :=
      exchange_of_failure hInquiry hPrepare
    refine ⟨by rw [hExchange]; rfl, (status_of_prepare_eq_error hPrepare).imp ?_ ?_⟩
    · intro hStatus
      rw [hExchange, Exchange.status_ofRun]
      exact hStatus
    · rintro ⟨name, rfl⟩
      refine ⟨name, ?_⟩
      rw [failure?, hInquiry]
      dsimp only
      rw [answer, on_answerCall, hPrepare]

end Server

/-- A text is taken for a column exactly where it is a literal of the column's type, and any text as
a time. This holds of texts, of JSON strings and of every literal of a filter, and a request with a
literal that is not taken fails before anything is sent. -/
theorem Column.literals_are_checked (column : Column) (text : String) :
    column.Answers text (BoundValue.ofText column text) ∧
    column.Answers text (BoundValue.ofJson column (.text text)) ∧
    (∀ (e : Entity) (raw : String) (f : Filter), Filter.compile e.asText raw = .ok f →
      Filter.compile e raw = f.convert e ∧
        (((∀ c ∈ f.conditions, ∀ column s, c.Compares e column s → column.Accepts s) ∧
            ∃ g, Filter.compile e raw = .ok g) ∨
          ∃ fault, Filter.compile e raw = .error fault ∧ f.Blames e fault)) ∧
    (∀ (e : Entity) (raw : String) (g : Filter), Filter.compile e raw = .ok g →
      ∃ f, Filter.compile e.asText raw = .ok f) ∧
    (∀ (s : Server) (db : Database) (r : Request) (place : Call.Place) (call : Call) (e : Entity),
      r.inquiry s.maxBodyBytes = .ok (.call place call) →
      s.catalog.entity? place.domain place.entity = some e →
      call.Hands e column text → ¬ column.Accepts text →
      (s.exchange db r).log = [] ∧
        ((s.exchange db r).response.status ∈ [400, 403, 404, 405, 422] ∨
          ∃ name, s.failure? db r = some (.statement (.missingPrimaryKey name)))) := by
  refine ⟨column.answers_ofText text, column.answers_ofJson text, fun e raw f hText => ?_,
    fun e raw g hRead => ?_, fun s db r place call e hInquiry hFound hHands hMalformed => ?_⟩
  · exact ⟨Filter.compile_eq_convert hText, Filter.compile_literals hText⟩
  · obtain ⟨f, hText, -⟩ := Filter.exists_compile_asText hRead
    exact ⟨f, hText⟩
  · exact Server.exchange_of_malformed hInquiry hFound hHands hMalformed

/-- A letter where the key is a number, and a filter on texts. -/
theorem Server.sampleShop_checks_literals :
    ((shopWith sampleShop [{ sampleKey with type := .integer }]).exchange {}
      (sampleRequest "DELETE")).log = [] ∧
    ∃ g, Filter.compile Filter.sampleEntity "(name EQ x Or code eq Null) AND name ct 'and'" =
      .ok g := by
  obtain ⟨-, -, hFilters, -, hServers⟩ :=
    Column.literals_are_checked { sampleKey with type := .integer } "a"
  have hMalformed : ¬ Column.Accepts { sampleKey with type := .integer } "a" := by
    rw [← Column.readLiteral?_isSome_iff]
    decide
  constructor
  · have hHands : Call.Hands { sampleItems with columns := [{ sampleKey with type := .integer }] }
        { sampleKey with type := .integer } "a" (.delete "a") :=
      .row rfl (List.mem_singleton_self (RowRequest.delete "a")) (.id rfl rfl)
    exact (hServers (shopWith sampleShop [{ sampleKey with type := .integer }]) {}
      (sampleRequest "DELETE") samplePlace (.delete "a") _
      (inquiry_sampleRequest (by decide) rfl) rfl hHands hMalformed).1
  · obtain ⟨-, ⟨-, hAccepted⟩ | ⟨fault, hFault, -⟩⟩ :=
      hFilters Filter.sampleEntity _ _ Filter.compile_sampleFilter
    · exact hAccepted
    · cases Filter.compile_sampleFilter.symm.trans hFault

/-- A text that is no time of day is taken as a time. -/
theorem Column.time_is_not_checked :
    BoundValue.ofText { name := "At", type := .time } "abc" = .ok (.text "abc") ∧
      ¬ DataType.time.IsLiteral (Text.trim "abc".toList) := by
  refine ⟨rfl, ?_⟩
  rintro ⟨hour, minute, second, -, -, -, hText⟩
  have hTrim : Text.trim "abc".toList = "abc".toList := by decide
  have hTwo (n : Nat) : 2 ≤ (Text.padded 2 n).length := Text.le_length_padded
  have hLength := congrArg List.length hText
  rw [hTrim] at hLength
  simp at hLength
  have hHour := hTwo hour
  have hMinute := hTwo minute
  omega

end TableGateway
