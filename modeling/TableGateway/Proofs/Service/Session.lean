import TableGateway.Service.Session

/-!
# What actions do to sessions

An action appends to the log and takes replies; nothing else of a session changes. A transaction
runs its course: it begins, unless the database cannot be reached or refuses, and then ends in a
commit or in a rollback.
-/

namespace TableGateway

namespace Sent

def begin : Sent := ⟨.write, .begin⟩

def commit : Sent := ⟨.write, .commit⟩

def rollback : Sent := ⟨.write, .rollback⟩

def statement (pool : Pool) (s : Statement) : Sent :=
  ⟨pool, .statement s.text s.parameters.values⟩

end Sent

namespace Database

def reply (db : Database) : Reply := db.replies.headD (.rows [] [])

def answered (db : Database) : Database := { db with replies := db.replies.tail }

end Database

namespace Session

variable {P Q : Sent → Prop} {σ τ υ : Session}

def sent (σ : Session) (c : Sent) : Session := { σ with log := σ.log ++ [c] }

def answered (σ : Session) : Session := { σ with database := σ.database.answered }

/-- What was sent between two sessions satisfies `P`. -/
structure Extends (P : Sent → Prop) (σ τ : Session) : Prop where
  log : ∃ added, τ.log = σ.log ++ added ∧ ∀ c ∈ added, P c
  database : ∃ replies, τ.database = { σ.database with replies }

namespace Extends

theorem refl (P : Sent → Prop) (σ : Session) : σ.Extends P σ :=
  ⟨⟨[], by simp⟩, σ.database.replies, rfl⟩

theorem sent (σ : Session) {c : Sent} (h : P c) : σ.Extends P (σ.sent c) :=
  ⟨⟨[c], rfl, by simpa using h⟩, σ.database.replies, rfl⟩

theorem answered (P : Sent → Prop) (σ : Session) : σ.Extends P σ.answered :=
  ⟨⟨[], by simp [Session.answered]⟩, σ.database.replies.tail, rfl⟩

theorem trans (h : σ.Extends P τ) (h' : τ.Extends P υ) : σ.Extends P υ := by
  obtain ⟨⟨added, hLog, hAdded⟩, replies, hDatabase⟩ := h
  obtain ⟨⟨added', hLog', hAdded'⟩, replies', hDatabase'⟩ := h'
  refine ⟨⟨added ++ added', ?_, ?_⟩, replies', ?_⟩
  · rw [hLog', hLog, List.append_assoc]
  · exact List.forall_mem_append.mpr ⟨hAdded, hAdded'⟩
  · rw [hDatabase', hDatabase]

theorem mono (h : ∀ c, P c → Q c) (hP : σ.Extends P τ) : σ.Extends Q τ := by
  obtain ⟨added, hLog, hAdded⟩ := hP.log
  exact ⟨⟨added, hLog, fun c hc => h c (hAdded c hc)⟩, hP.database⟩

theorem refusesCommit_eq (h : σ.Extends P τ) :
    τ.database.refusesCommit = σ.database.refusesCommit := by
  obtain ⟨replies, hDatabase⟩ := h.database
  rw [hDatabase]

end Extends

end Session

namespace Action

variable {α β : Type} {P Q : Sent → Prop} {σ τ υ : Session}

/-- What an action results in, and the session after it. -/
def on (a : Action α) (σ : Session) : Except ServiceError α × Session := a.run.run σ

theorem on_pure (x : α) (σ : Session) : (pure x : Action α).on σ = (.ok x, σ) := rfl

theorem on_ofExcept (x : Except ServiceError α) (σ : Session) : (ofExcept x).on σ = (x, σ) := rfl

theorem on_record (pool : Pool) (command : Command) (σ : Session) :
    (record pool command).on σ = (.ok (), σ.sent ⟨pool, command⟩) := rfl

theorem on_bind (a : Action α) (f : α → Action β) (σ : Session) :
    (a >>= f).on σ =
      match a.on σ with
      | (.ok x, τ) => (f x).on τ
      | (.error e, τ) => (.error e, τ) := by
  change (match a.on σ with | (r, τ) => (ExceptT.bindCont f r).run τ) = _
  cases a.on σ with
  | mk r τ => cases r <;> rfl

theorem on_bind_ok {a : Action α} {x : α} (h : a.on σ = (.ok x, τ)) (f : α → Action β) :
    (a >>= f).on σ = (f x).on τ := by
  rw [on_bind, h]

theorem on_bind_eq_ok_iff {a : Action α} {f : α → Action β} {y : β} :
    (a >>= f).on σ = (.ok y, υ) ↔ ∃ x τ, a.on σ = (.ok x, τ) ∧ (f x).on τ = (.ok y, υ) := by
  rw [on_bind]
  cases a.on σ with
  | mk r τ =>
    cases r with
    | ok x =>
      constructor
      · exact fun h => ⟨x, τ, rfl, h⟩
      · rintro ⟨x', τ', ⟨⟩, h⟩
        exact h
    | error e =>
      constructor
      · exact nofun
      · rintro ⟨x, τ', ⟨⟩, -⟩

theorem on_tryCatch (a : Action α) (f : ServiceError → Action α) (σ : Session) :
    (tryCatch a f : Action α).on σ =
      match a.on σ with
      | (.ok x, τ) => (.ok x, τ)
      | (.error e, τ) => (f e).on τ := by
  change StateT.run (ExceptT.tryCatch a f).run σ = _
  unfold ExceptT.tryCatch on
  rw [ExceptT.run_mk, StateT.run_bind]
  cases h : StateT.run (m := Id) (ExceptT.run a) σ with
  | mk r τ =>
    rw [show StateT.run (m := Id) a σ = (r, τ) from h]
    cases r <;> rfl

theorem on_connect (σ : Session) :
    connect.on σ =
      match σ.database.unreachable with
      | some reason => (.error (.database (.unreachable reason)), σ)
      | none => (.ok (), σ) := by
  rw [connect, on_bind]
  change (match σ.database.unreachable with | some reason => fail _ | none => pure ()).on σ = _
  cases σ.database.unreachable <;> rfl

theorem on_nextReply (σ : Session) : nextReply.on σ = (.ok σ.database.reply, σ.answered) := by
  obtain ⟨⟨replies, _, _, _, _⟩, log⟩ := σ
  cases replies <;> rfl

end Action

/-- A refusal is a failure. -/
def Reply.accepted : Reply → Except ServiceError Reply
  | .refused state message => .error (.database (.refused state message))
  | reply => .ok reply

namespace Action

theorem on_execute (pool : Pool) (s : Statement) (σ : Session) :
    (execute pool s).on σ =
      match σ.database.unreachable with
      | some reason => (.error (.database (.unreachable reason)), σ)
      | none => (σ.database.reply.accepted, (σ.sent (.statement pool s)).answered) := by
  rw [execute, send, on_bind, on_connect]
  cases σ.database.unreachable with
  | some reason => rfl
  | none =>
    change (record _ _ >>= _).on σ = _
    rw [on_bind_ok (on_record ..), on_bind_ok (on_nextReply _)]
    change (match σ.database.reply with | .refused .. => fail _ | reply => pure reply).on _ = _
    cases σ.database.reply <;> rfl

theorem on_execute_eq_ok {pool : Pool} {s : Statement} {reply : Reply}
    (h : (execute pool s).on σ = (.ok reply, τ)) :
    reply = σ.database.reply ∧ τ = (σ.sent (.statement pool s)).answered := by
  rw [on_execute] at h
  revert h
  cases σ.database.unreachable with
  | some reason => exact nofun
  | none =>
    cases σ.database.reply with
    | rows | affected => rintro ⟨⟩; exact ⟨rfl, rfl⟩
    | refused => exact nofun

theorem on_beginTransaction (σ : Session) :
    beginTransaction.on σ =
      match σ.database.unreachable with
      | some reason => (.error (.database (.unreachable reason)), σ)
      | none =>
        if σ.database.refusesBegin then
          (.error (.database (.refused internalError "BEGIN failed")), σ.sent .begin)
        else (.ok (), σ.sent .begin) := by
  rw [beginTransaction, on_bind, on_connect]
  cases σ.database.unreachable with
  | some reason => rfl
  | none =>
    change (record _ _ >>= _).on σ = _
    rw [on_bind_ok (on_record ..)]
    change (if σ.database.refusesBegin then fail _ else pure ()).on (σ.sent .begin) = _
    split <;> rfl

theorem on_commitTransaction (σ : Session) :
    commitTransaction.on σ =
      if σ.database.refusesCommit then
        (.error (.database (.refused internalError "COMMIT failed")), σ.sent .commit)
      else (.ok (), σ.sent .commit) := by
  rw [commitTransaction, on_bind_ok (on_record ..)]
  change (if σ.database.refusesCommit then fail _ else pure ()).on (σ.sent .commit) = _
  split <;> rfl

theorem on_transaction (body : Action (Option α)) (σ : Session) :
    (transaction body).on σ =
      match beginTransaction.on σ with
      | (.error e, τ) => (.error e, τ)
      | (.ok _, τ) =>
        match body.on τ with
        | (.error e, υ) => (.error e, υ.sent .rollback)
        | (.ok none, υ) => (.ok none, υ.sent .rollback)
        | (.ok (some x), υ) =>
          if υ.database.refusesCommit then
            (.error (.database (.refused internalError "COMMIT failed")),
              (υ.sent .commit).sent .rollback)
          else (.ok (some x), υ.sent .commit) := by
  rw [transaction, on_bind]
  cases beginTransaction.on σ with
  | mk r τ =>
    cases r with
    | error e => rfl
    | ok _ =>
      simp only [on_tryCatch, on_bind]
      cases body.on τ with
      | mk r υ =>
        cases r with
        | error e => rfl
        | ok x? =>
          cases x? with
          | none => rfl
          | some x =>
            simp only [on_bind, on_commitTransaction]
            cases υ.database.refusesCommit <;> rfl

/-- Runs an action in a transaction, which is rolled back only when something fails. -/
def atomically [Inhabited α] (inside : Action α) : Action α := do
  let x? ← transaction do
    let x ← inside
    pure (some x)
  pure (x?.getD default)

/-- How a transaction may go: what it results in, and the session after it. -/
inductive Course (inside : Action α) (σ : Session) : Except ServiceError α × Session → Prop
  | unreached {reason : String} :
    Course inside σ (.error (.database (.unreachable reason)), σ)
  | notBegun (hBegin : σ.database.refusesBegin = true) :
    Course inside σ (.error (.database (.refused internalError "BEGIN failed")), σ.sent .begin)
  | rolledBack {e : ServiceError} {τ : Session} (hBegin : σ.database.refusesBegin = false)
    (hInside : inside.on (σ.sent .begin) = (.error e, τ)) :
    Course inside σ (.error e, τ.sent .rollback)
  | notCommitted {x : α} {τ : Session} (hBegin : σ.database.refusesBegin = false)
    (hInside : inside.on (σ.sent .begin) = (.ok x, τ))
    (hCommit : τ.database.refusesCommit = true) :
    Course inside σ
      (.error (.database (.refused internalError "COMMIT failed")), (τ.sent .commit).sent .rollback)
  | committed {x : α} {τ : Session} (hBegin : σ.database.refusesBegin = false)
    (hInside : inside.on (σ.sent .begin) = (.ok x, τ))
    (hCommit : τ.database.refusesCommit = false) :
    Course inside σ (.ok x, τ.sent .commit)

theorem atomically_course [Inhabited α] (inside : Action α) (σ : Session) :
    Course inside σ ((atomically inside).on σ) := by
  simp only [atomically, on_bind, on_transaction, on_beginTransaction]
  cases σ.database.unreachable with
  | some reason => exact .unreached
  | none =>
    cases hBegin : σ.database.refusesBegin with
    | true => exact .notBegun hBegin
    | false =>
      simp only [Bool.false_eq_true, if_false]
      cases hInside : inside.on (σ.sent .begin) with
      | mk r τ =>
        cases r with
        | error e => exact .rolledBack hBegin hInside
        | ok x =>
          cases hCommit : τ.database.refusesCommit with
          | true => simpa [on_pure, hCommit] using Course.notCommitted hBegin hInside hCommit
          | false => simpa [on_pure, hCommit] using Course.committed hBegin hInside hCommit

def orThrow (e : ServiceError) : Option α → Action α
  | some x => pure x
  | none => throw e

/-- To fail after a transaction that had no result is to fail inside it. -/
theorem transaction_orThrow [Inhabited β] {body : Action (Option α)} {inside : Action β}
    {f : β → α} {e : ServiceError} (h : body >>= orThrow e = inside >>= fun y => pure (f y)) :
    transaction body >>= orThrow e = atomically inside >>= fun y => pure (f y) := by
  funext σ
  change (transaction body >>= orThrow e).on σ = (atomically inside >>= fun y => pure (f y)).on σ
  simp only [atomically, on_bind, on_transaction]
  cases beginTransaction.on σ with
  | mk r τ =>
    cases r with
    | error e' => rfl
    | ok _ =>
      have hOn : (body >>= orThrow e).on τ = (inside >>= fun y => pure (f y)).on τ := by rw [h]
      rw [on_bind, on_bind] at hOn
      dsimp only
      revert hOn
      -- only three pairs of outcomes agree with `h`: one failure, no result, and one result
      rcases body.on τ with ⟨e' | _ | x, υ⟩ <;> rcases inside.on τ with ⟨e'' | y, υ'⟩ <;> intro hOn
      all_goals cases hOn
      · rfl
      · rfl
      · cases hCommit : υ.database.refusesCommit <;> simp [hCommit, orThrow, on_pure]

/-- Wherever the action starts, it sends only what satisfies `P`, and it is not denied. -/
def Sends (P : Sent → Prop) (a : Action α) : Prop :=
  ∀ σ, σ.Extends P (a.on σ).2 ∧ (a.on σ).1 ≠ .error .forbidden

namespace Sends

theorem mono {a : Action α} (h : ∀ c, P c → Q c) (ha : Sends P a) : Sends Q a :=
  fun σ => ⟨(ha σ).1.mono h, (ha σ).2⟩

theorem pure (x : α) : Sends P (Pure.pure x) := fun σ => ⟨.refl P σ, nofun⟩

theorem get : Sends P MonadState.get := fun σ => ⟨.refl P σ, nofun⟩

theorem throw {e : ServiceError} (h : e ≠ .forbidden) :
    Sends P (MonadExcept.throw e : Action α) :=
  fun σ => ⟨.refl P σ, fun hEq => h (Except.error.inj hEq)⟩

theorem bind {a : Action α} {f : α → Action β} (ha : Sends P a) (hf : ∀ x, Sends P (f x)) :
    Sends P (a >>= f) := by
  intro σ
  obtain ⟨hFirst, hAllowed⟩ := ha σ
  rw [on_bind]
  revert hFirst hAllowed
  cases a.on σ with
  | mk r τ =>
    intro hFirst hAllowed
    cases r with
    | ok x => exact ⟨hFirst.trans (hf x τ).1, (hf x τ).2⟩
    | error e => exact ⟨hFirst, fun hEq => hAllowed (congrArg Except.error (Except.error.inj hEq))⟩

theorem execute {pool : Pool} {s : Statement} (h : P (.statement pool s)) :
    Sends P (Action.execute pool s) := by
  intro σ
  rw [on_execute]
  cases σ.database.unreachable with
  | some reason => exact ⟨.refl P σ, nofun⟩
  | none =>
    refine ⟨(Session.Extends.sent σ h).trans (.answered P _), ?_⟩
    change σ.database.reply.accepted ≠ _
    cases σ.database.reply <;> exact nofun

theorem mapM {f : α → Action β} {xs : List α} (h : ∀ x ∈ xs, Sends P (f x)) :
    Sends P (xs.mapM f) := by
  induction xs with
  | nil => exact .pure []
  | cons x xs ih =>
    rw [List.forall_mem_cons] at h
    rw [List.mapM_cons]
    exact h.1.bind fun y => (ih h.2).bind fun ys => .pure (y :: ys)

theorem atomically [Inhabited α] {inside : Action α} (hBegin : P .begin) (hCommit : P .commit)
    (hRollback : P .rollback) (hInside : Sends P inside) : Sends P (Action.atomically inside) := by
  intro σ
  have hCourse := atomically_course inside σ
  have hBegun : σ.Extends P (σ.sent .begin) := .sent σ hBegin
  have hSent := hInside (σ.sent .begin)
  revert hCourse
  generalize (Action.atomically inside).on σ = outcome
  intro hCourse
  cases hCourse with
  | unreached => exact ⟨.refl P σ, nofun⟩
  | notBegun => exact ⟨hBegun, nofun⟩
  | rolledBack _ hOn =>
    rw [hOn] at hSent
    exact ⟨(hBegun.trans hSent.1).trans (.sent _ hRollback),
      fun hEq => hSent.2 (congrArg Except.error (Except.error.inj hEq))⟩
  | notCommitted _ hOn _ =>
    rw [hOn] at hSent
    have hTried := (hBegun.trans hSent.1).trans (.sent _ hCommit)
    exact ⟨hTried.trans (.sent _ hRollback), nofun⟩
  | committed _ hOn _ =>
    rw [hOn] at hSent
    exact ⟨(hBegun.trans hSent.1).trans (.sent _ hCommit), nofun⟩

theorem mem_log {a : Action α} (h : Sends P a) (db : Database) :
    ∀ c ∈ (a.on { database := db }).2.log, P c := by
  obtain ⟨added, hLog, hAdded⟩ := (h { database := db }).1.log
  rw [hLog]
  exact hAdded

end Sends

end Action

end TableGateway
