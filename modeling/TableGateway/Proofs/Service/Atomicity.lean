import TableGateway.Proofs.Service.Arrangement

/-!
# Atomicity of changes

All that is sent for a request that changes rows is one transaction, in which each change is
recorded right behind it. The request succeeds exactly when the transaction is committed, and a
transaction that has begun and is not committed is rolled back.
-/

namespace TableGateway

namespace Database

/-- Whether a transaction in the log has begun. -/
def begins (db : Database) (log : List Sent) : Prop := .begin ∈ log ∧ db.refusesBegin = false

/-- Whether a transaction in the log is committed. -/
def commits (db : Database) (log : List Sent) : Prop := .commit ∈ log ∧ db.refusesCommit = false

/-- A log with at most one transaction, of which `inside` is the inner part when nothing fails. -/
structure Transacts (db : Database) (succeeds : Bool) (inside log : List Sent) : Prop where
  opening : log = [] ∨
    ∃ rest, log = .begin :: rest ∧ ∀ c ∈ rest, c.pool = .write ∧ c.command ≠ .begin
  succeeds_iff : succeeds = true ↔ db.commits log
  committed : db.commits log → log = .begin :: inside ++ [.commit]
  undone : db.begins log → ¬ db.commits log → log.getLast? = some .rollback

variable {db : Database} {inside : List Sent}

theorem transacts_nil (db : Database) (inside : List Sent) : db.Transacts false inside [] where
  opening := .inl rfl
  succeeds_iff := ⟨nofun, fun h => absurd h.1 List.not_mem_nil⟩
  committed h := absurd h.1 List.not_mem_nil
  undone h := absurd h.1 List.not_mem_nil

theorem transacts_of_ending {succeeds : Bool} {added ending : List Sent}
    (hAdded : ∀ c ∈ added, ∃ statement, c = .statement .write statement)
    (hEnding : ∀ c ∈ ending, c = .commit ∨ c = .rollback)
    (hSucceeds : succeeds = true ↔ .commit ∈ ending ∧ db.refusesCommit = false)
    (hCommitted : succeeds = true → added = inside ∧ ending = [.commit])
    (hUndone : succeeds = false → ending.getLast? = some .rollback) :
    db.Transacts succeeds inside (.begin :: added ++ ending) := by
  have hCommits : db.commits (.begin :: added ++ ending) ↔ succeeds = true := by
    -- statements are no commits, so the ending alone decides
    have hNot : Sent.commit ∉ .begin :: added := by
      rw [List.mem_cons]
      rintro (hEq | h)
      · cases hEq
      · obtain ⟨statement, hEq⟩ := hAdded _ h
        cases hEq
    rw [hSucceeds, commits, List.mem_append, or_iff_right hNot]
  refine ⟨.inr ⟨added ++ ending, rfl, fun c hc => ?_⟩, hCommits.symm, fun h => ?_, fun _ h => ?_⟩
  · obtain hc | hc := List.mem_append.mp hc
    · obtain ⟨statement, rfl⟩ := hAdded c hc
      exact ⟨rfl, nofun⟩
    · obtain rfl | rfl := hEnding c hc
      · exact ⟨rfl, nofun⟩
      · exact ⟨rfl, nofun⟩
  · obtain ⟨rfl, rfl⟩ := hCommitted (hCommits.mp h)
    rfl
  · have hLast := hUndone (by simpa using mt hCommits.mpr h)
    rw [List.getLast?_append, hLast]
    rfl

theorem transacts_of_course {α : Type} {body : Action α}
    {outcome : Except ServiceError α × Session}
    (hCourse : Action.Course body { database := db } outcome)
    (hBody : Action.Sends (fun c => ∃ statement, c = .statement .write statement) body)
    (hInside : ∀ x τ, body.on (Session.sent { database := db } .begin) = (.ok x, τ) →
      τ.log = .begin :: inside) :
    db.Transacts outcome.1.isOk inside outcome.2.log := by
  have hSent := (hBody (Session.sent { database := db } .begin)).1
  obtain ⟨added, hLog, hAdded⟩ := hSent.log
  have hRefuses := hSent.refusesCommit_eq
  cases hCourse with
  | unreached => exact transacts_nil db inside
  | notBegun hBegin =>
    have hNone : ¬ db.commits [.begin] := by simp [commits, Sent.begin, Sent.commit]
    have hNotBegun : ¬ db.begins [.begin] := by simpa [begins] using hBegin
    exact ⟨.inr ⟨[], rfl, by simp⟩, ⟨fun h => absurd h Bool.false_ne_true, (absurd · hNone)⟩,
      (absurd · hNone), (absurd · hNotBegun)⟩
  | @rolledBack _ τ _ hOn =>
    rw [hOn] at hLog
    have hEnding : (τ.sent .rollback).log = .begin :: added ++ [.rollback] :=
      congrArg (· ++ [Sent.rollback]) hLog
    have hSucceeds : false = true ↔ .commit ∈ [Sent.rollback] ∧ db.refusesCommit = false := by
      simp [Sent.commit, Sent.rollback]
    rw [hEnding]
    exact transacts_of_ending hAdded (by simp) hSucceeds (absurd · Bool.false_ne_true) fun _ => rfl
  | @notCommitted _ τ _ hOn hRefused =>
    rw [hOn] at hLog hRefuses
    have hInner : τ.log = .begin :: added := hLog
    have hEnding : ((τ.sent .commit).sent .rollback).log =
        .begin :: added ++ [.commit, .rollback] := by
      rw [Session.sent, Session.sent, hInner, List.append_assoc]
      rfl
    have hRefusing : db.refusesCommit = true := hRefuses.symm.trans hRefused
    have hSucceeds : false = true ↔ .commit ∈ [Sent.commit, .rollback] ∧
        db.refusesCommit = false := by
      simp [hRefusing]
    rw [hEnding]
    exact transacts_of_ending hAdded (by simp) hSucceeds (absurd · Bool.false_ne_true) fun _ => rfl
  | @committed _ τ _ hOn hAccepted =>
    rw [hOn] at hLog hRefuses
    have hEnding : (τ.sent .commit).log = .begin :: added ++ [.commit] :=
      congrArg (· ++ [Sent.commit]) hLog
    have hSucceeds : true = true ↔ .commit ∈ [Sent.commit] ∧ db.refusesCommit = false :=
      ⟨fun _ => ⟨List.mem_singleton_self _, hRefuses.symm.trans hAccepted⟩, fun _ => rfl⟩
    have hSame : added = inside := (List.cons.inj (hLog.symm.trans (hInside _ _ hOn))).2
    rw [hEnding]
    exact transacts_of_ending hAdded (by simp) hSucceeds (fun _ => ⟨hSame, rfl⟩)
      (absurd ·.symm Bool.false_ne_true)

end Database

def Method.verb : Method → String
  | .get => "GET"
  | .post => "POST"
  | .put => "PUT"
  | .patch => "PATCH"
  | .delete => "DELETE"

theorem Call.methods_of_rowRequests {call : Call} {qs : List RowRequest}
    (h : call.rowRequests = .ok qs) : ∀ q ∈ qs, call.methods = [q.method.verb] := by
  intro q hq
  cases call with
  | list | read | options => cases h; cases hq
  | replace | delete =>
    cases h
    obtain rfl := List.mem_singleton.mp hq
    rfl
  | create body =>
    cases body with
    | array bodies =>
      cases h
      obtain ⟨body, -, rfl⟩ := List.mem_map.mp hq
      rfl
    | _ =>
      cases h
      obtain rfl := List.mem_singleton.mp hq
      rfl
  | patchMany | patchOne =>
    obtain ⟨subs, -, rfl⟩ := Outcome.map_eq_ok_iff.mp h
    obtain ⟨sub, -, rfl⟩ := List.mem_map.mp hq
    rfl

namespace Server

variable {s : Server} {db : Database} {r : Request} {place : Call.Place} {e : Entity}

theorem CarriesOut.transacts {cs : List (Change e)} {run : Action Response}
    (h : s.CarriesOut place cs run) :
    db.Transacts (Response.ofOutcome (run.on { database := db }).1).isSuccess
      (s.transcript place db cs) (run.on { database := db }).2.log := by
  obtain ⟨answer, hAnswer, rfl⟩ := h
  have hBody : Action.Sends (fun c => ∃ statement, c = .statement .write statement)
      (cs.mapM (s.carryOut place)) := (mapM_carryOut_sends cs).mono fun c hc => by
    obtain ⟨d, -, rfl | ⟨reply, rfl⟩⟩ := hc
    · exact ⟨_, rfl⟩
    · exact ⟨_, rfl⟩
  have hTransacts := Database.transacts_of_course
    (Action.atomically_course (cs.mapM (s.carryOut place)) ⟨db, []⟩) hBody
    fun rows τ hOn => on_mapM_carryOut_eq_ok hOn
  rw [Action.on_bind]
  revert hTransacts
  rw [carryOutAll]
  cases (Action.atomically (cs.mapM (s.carryOut place))).on { database := db } with
  | mk outcome σ =>
    intro hTransacts
    cases outcome with
    | ok rows =>
      change db.Transacts (answer rows).isSuccess _ _
      rw [hAnswer]
      exact hTransacts
    | error e =>
      change db.Transacts (Response.ofError e).isSuccess _ _
      rw [Response.isSuccess_ofError]
      exact hTransacts

theorem transacts_of_method (hMethod : r.method ∈ ["POST", "PUT", "PATCH", "DELETE"]) :
    ∃ inside,
      db.Transacts (s.exchange db r).response.isSuccess inside (s.exchange db r).log ∧
      (db.commits (s.exchange db r).log →
        ∃ (place : Call.Place) (call : Call) (e : Entity) (cs : List (Change e)),
          r.inquiry s.maxBodyBytes = .ok (.call place call) ∧
          s.catalog.entity? place.domain place.entity = some e ∧
          call.rowRequests = .ok (cs.map Change.request) ∧
          (∀ c ∈ cs, c.request.method.verb = r.method) ∧
          inside = s.transcript place db cs) := by
  have hDeals := s.exchange_deals db r
  revert hDeals
  generalize s.exchange db r = x
  intro hDeals
  cases hDeals with
  | @refused refusal hInquiry =>
    refine ⟨[], ?_, fun h => absurd h.1 List.not_mem_nil⟩
    rw [refusal.isSuccess_response]
    exact Database.transacts_nil db []
  | informed hInquiry hServer =>
    have hRead := (Request.inquiry_isAboutServer hInquiry hServer).2
    simp only [List.mem_cons, List.not_mem_nil, or_false] at hMethod hRead
    rcases hMethod with h | h | h | h <;> simp [h] at hRead
  | @unprepared place call e hInquiry hPrepare =>
    refine ⟨[], ?_, fun h => absurd h.1 List.not_mem_nil⟩
    rw [Exchange.isSuccess_ofRun]
    exact Response.isSuccess_ofError e ▸ Database.transacts_nil db []
  | @performed place call task hInquiry hPrepare =>
    obtain ⟨e, hEntity, hArranges⟩ := arranges_of_prepare hPrepare
    have hCall := (Request.inquiry_call hInquiry).2
    cases hArranges with
    | list | read | describe =>
      simp only [Call.methods, List.mem_cons, List.not_mem_nil, or_false] at hMethod hCall
      rcases hMethod with h | h | h | h <;> simp [h] at hCall
    | @changes _ _ cs _ _ hRequests hRun =>
      refine ⟨s.transcript place db cs, ?_, fun _ =>
        ⟨place, call, e, cs, hInquiry, hEntity, hRequests, fun c hc => ?_, rfl⟩⟩
      · rw [Exchange.isSuccess_ofRun]
        exact hRun.transacts
      · have hMethods := Call.methods_of_rowRequests hRequests c.request (List.mem_map_of_mem hc)
        rw [hMethods] at hCall
        exact (List.mem_singleton.mp hCall).symm

theorem reads_of_get (hMethod : r.method = "GET") (hEntity : r.isOnEntity = true) :
    ∀ c ∈ (s.exchange db r).log, c.pool = .read ∧ c.command ≠ .begin := by
  have hDeals := s.exchange_deals db r
  revert hDeals
  generalize s.exchange db r = x
  intro hDeals
  cases hDeals with
  | refused | unprepared => exact nofun
  | informed hInquiry hServer =>
    exact absurd ((Request.inquiry_isAboutServer hInquiry hServer).1.symm.trans hEntity) nofun
  | @performed place call task hInquiry hPrepare =>
    obtain ⟨e, -, hArranges⟩ := arranges_of_prepare hPrepare
    have hCall := (Request.inquiry_call hInquiry).2
    cases hArranges with
    | list =>
      intro c hc
      obtain rfl | rfl := (runList_sends _ _).mem_log db c hc <;> exact ⟨rfl, nofun⟩
    | read =>
      intro c hc
      obtain rfl := (runRead_sends _ _ _).mem_log db c hc
      exact ⟨rfl, nofun⟩
    | describe => exact nofun
    | @changes _ _ cs _ hSome hRequests _ =>
      obtain ⟨c, cs, rfl⟩ := List.exists_cons_of_ne_nil hSome
      have hMethods := Call.methods_of_rowRequests hRequests c.request List.mem_cons_self
      rw [hMethods, hMethod, List.mem_singleton] at hCall
      cases hRequest : c.request <;> simp [hRequest, RowRequest.method, Method.verb] at hCall

/-- Whatever the database does, the changes that a request asks for are made and recorded in one
transaction, or not at all. Reading sends nothing to the write pool. -/
theorem changes_are_atomic (s : Server) (db : Database) (r : Request) :
    (r.method ∈ ["POST", "PUT", "PATCH", "DELETE"] →
      ((s.exchange db r).log = [] ∨
        ∃ rest, (s.exchange db r).log = .begin :: rest ∧
          ∀ c ∈ rest, c.pool = .write ∧ c.command ≠ .begin) ∧
      ((s.exchange db r).response.isSuccess = true ↔ db.commits (s.exchange db r).log) ∧
      (db.commits (s.exchange db r).log →
        ∃ (place : Call.Place) (call : Call) (e : Entity) (cs : List (Change e)),
          r.inquiry s.maxBodyBytes = .ok (.call place call) ∧
          s.catalog.entity? place.domain place.entity = some e ∧
          call.rowRequests = .ok (cs.map Change.request) ∧
          (∀ c ∈ cs, c.request.method.verb = r.method) ∧
          (s.exchange db r).log = .begin :: s.transcript place db cs ++ [.commit]) ∧
      (db.begins (s.exchange db r).log → ¬ db.commits (s.exchange db r).log →
        (s.exchange db r).log.getLast? = some .rollback)) ∧
    (r.method = "GET" → r.isOnEntity = true →
      ∀ c ∈ (s.exchange db r).log, c.pool = .read ∧ c.command ≠ .begin) := by
  refine ⟨fun hMethod => ?_, reads_of_get⟩
  obtain ⟨inside, hTransacts, hInside⟩ := transacts_of_method hMethod
  refine ⟨hTransacts.opening, hTransacts.succeeds_iff, fun hCommits => ?_, hTransacts.undone⟩
  obtain ⟨place, call, e, cs, hInquiry, hEntity, hRequests, hMethods, rfl⟩ := hInside hCommits
  exact ⟨place, call, e, cs, hInquiry, hEntity, hRequests, hMethods,
    hTransacts.committed hCommits⟩

/-- The sample item is deleted; then the deletion cannot be recorded; then the item is read. -/
theorem sampleDeletion_is_atomic :
    (∃ (place : Call.Place) (call : Call) (e : Entity) (cs : List (Change e)),
      (sampleRequest "DELETE").inquiry 100 = .ok (.call place call) ∧
      call.rowRequests = .ok (cs.map Change.request) ∧
      (sampleShop.exchange { replies := [.affected 1] } (sampleRequest "DELETE")).log =
        .begin :: sampleShop.transcript place { replies := [.affected 1] } cs ++ [.commit]) ∧
    (sampleShop.exchange { replies := [.affected 1, .refused "XX000" "no disk"] }
      (sampleRequest "DELETE")).log.getLast? = some .rollback ∧
    ∀ c ∈ (sampleShop.exchange {} (sampleRequest "GET")).log, c.pool = .read := by
  refine ⟨?_, ?_, ?_⟩
  · have hLog : (sampleShop.exchange { replies := [.affected 1] } (sampleRequest "DELETE")).log =
        [.begin, .statement .write sampleDeletion, .statement .write sampleRecord, .commit] := by
      rw [exchange_sampleDeletion]
      rfl
    have hAtomic := (changes_are_atomic sampleShop { replies := [.affected 1] }
      (sampleRequest "DELETE")).1 (by decide)
    obtain ⟨place, call, e, cs, hInquiry, -, hRequests, -, hAll⟩ :=
      hAtomic.2.2.1 ⟨by simp [hLog], rfl⟩
    exact ⟨place, call, e, cs, hInquiry, hRequests, hAll⟩
  · have hLog : (sampleShop.exchange { replies := [.affected 1, .refused "XX000" "no disk"] }
        (sampleRequest "DELETE")).log =
        [.begin, .statement .write sampleDeletion, .statement .write sampleRecord, .rollback] := by
      rw [exchange_sampleDeletion]
      rfl
    refine ((changes_are_atomic sampleShop _ _).1 (by decide)).2.2.2 ⟨by simp [hLog], rfl⟩ ?_
    rintro ⟨hCommit, -⟩
    simp [hLog, Sent.begin, Sent.statement, Sent.rollback, Sent.commit] at hCommit
  · exact fun c hc => ((changes_are_atomic sampleShop _ _).2 rfl (by decide) c hc).1

end Server

end TableGateway
