import TableGateway.Proofs.Service.Arrangement

/-!
# Denials

A denied caller learns nothing: that a request is denied is decided by the request and the gate
alone. So with any other catalog and any other database it has the same response, and nothing is
sent in either case.
-/

namespace TableGateway

theorem Refusal.status_ne (refusal : Refusal) : refusal.response.status ≠ 403 := by
  cases refusal <;> exact nofun

namespace Server

variable {s : Server} {db : Database} {r : Request}

/-- A pool answers or does not; asking it never fails. -/
theorem on_answers (pool : Pool) (σ : Session) : ∃ up τ, (answers pool).on σ = (.ok up, τ) := by
  rw [answers, Action.on_tryCatch, Action.on_bind]
  rcases (Action.send pool "SELECT 1" []).on σ with ⟨e | reply, τ⟩
  · exact ⟨false, τ, rfl⟩
  · exact ⟨true, τ, rfl⟩

theorem status_of_isAboutServer {q : Inquiry} (h : q.isAboutServer = true) (p : Principal)
    (σ : Session) : (Response.ofOutcome ((s.answer p q).on σ).1).status ≠ 403 := by
  cases q with
  | health | version => exact nofun
  | ready =>
    obtain ⟨reader, τ, hReader⟩ := on_answers .read σ
    obtain ⟨writer, υ, hWriter⟩ := on_answers .write τ
    rw [answer, readyResponse, Action.on_bind_ok hReader, Action.on_bind_ok hWriter]
    change (if (reader && writer) = true then 200 else 503) ≠ 403
    split <;> decide
  | call => cases h

theorem Arranges.status_ne {place : Call.Place} {e : Entity} {call : Call} {task : Task}
    (h : s.Arranges place e call task) (σ : Session) :
    (Response.ofOutcome ((s.run place task).on σ).1).status ≠ 403 := by
  have hAllowed := h.not_denied σ
  cases hRun : (s.run place task).on σ with
  | mk outcome τ =>
    rw [hRun] at hAllowed
    cases outcome with
    | ok response =>
      have hSuccess := h.isSuccess hRun
      intro hStatus
      rw [Response.isSuccess, show response.status = 403 from hStatus] at hSuccess
      exact absurd hSuccess (by decide)
    | error e =>
      exact fun hStatus => hAllowed (congrArg Except.error
        (ServiceError.status_eq_forbidden_iff.mp hStatus))

/-- A denied request has one response whatever the catalog and the database, and sends nothing. -/
theorem denial_reveals_nothing (h : (s.exchange db r).response.status = 403) (catalog : Catalog)
    (other : Database) :
    ({ s with catalog }.exchange other r).response = (s.exchange db r).response ∧
      (s.exchange db r).log = [] ∧ ({ s with catalog }.exchange other r).log = [] := by
  have hDeals := s.exchange_deals db r
  have hStatus := h
  revert hDeals hStatus
  generalize hExchange : s.exchange db r = x
  intro hDeals hStatus
  cases hDeals with
  | @refused refusal => exact absurd hStatus refusal.status_ne
  | informed hInquiry hServer =>
    rw [Exchange.status_ofRun] at hStatus
    exact absurd hStatus (status_of_isAboutServer hServer _ _)
  | @unprepared place call e hInquiry hPrepare =>
    rw [Exchange.status_ofRun] at hStatus
    obtain rfl := ServiceError.status_eq_forbidden_iff.mp hStatus
    have hDenied := (s.prepare_guarded (s.trusted r.principal) place call).denied_iff.mp hPrepare
    have hOther := (prepare_guarded (s := { s with catalog }) (s.trusted r.principal) place
      call).denied_iff.mpr hDenied
    rw [exchange_of_failure (s := { s with catalog }) hInquiry hOther]
    exact ⟨rfl, rfl, rfl⟩
  | performed hInquiry hPrepare =>
    obtain ⟨e, -, hArranges⟩ := arranges_of_prepare hPrepare
    rw [Exchange.status_ofRun] at hStatus
    exact absurd hStatus (hArranges.status_ne _)

/-- The user who may only delete the sample item does not learn whether it is there. -/
theorem sampleReading_reveals_nothing :
    (sampleShop.exchange {} (sampleRequest "GET")).response.status = 403 ∧
    ({ sampleShop with catalog := ⟨[]⟩ }.exchange { replies := [.rows ["Code"] [[.text "a"]]] }
      (sampleRequest "GET")).response =
        (sampleShop.exchange {} (sampleRequest "GET")).response := by
  have hPrepare : sampleShop.prepare (sampleShop.trusted (sampleRequest "GET").principal)
      samplePlace (.read "a" []) = .error .forbidden := by
    rw [principal_sampleRequest]
    rfl
  have hStatus : (sampleShop.exchange {} (sampleRequest "GET")).response.status = 403 := by
    rw [exchange_of_failure (inquiry_sampleRequest (by decide) rfl) hPrepare]
    rfl
  exact ⟨hStatus, (denial_reveals_nothing hStatus ⟨[]⟩ _).1⟩

end Server

end TableGateway
