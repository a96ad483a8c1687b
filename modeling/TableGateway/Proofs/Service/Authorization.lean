import TableGateway.Proofs.Outcome
import TableGateway.Service.Task

/-!
# Authorization of calls

A call is about certain resources. Whether the caller may do with all of them what it asks for is
decided before anything is read from the catalog, and nothing that comes after denies the call.
-/

namespace TableGateway

namespace Call

/-- The operations of a patch. Those on one resource are put into it. -/
def operations : Call → Except PatchFault (List PatchOperation)
  | .patchMany body => PatchOperation.readAll body
  | .patchOne id body =>
    (PatchOperation.readAll body).map fun os => os.map (PatchOperation.inResource id)
  | _ => .ok []

def subPatches (call : Call) : Except PatchFault (List SubPatch) := do
  SubPatch.split (← call.operations)

def operation : Call → Operation
  | .list _ => .list
  | .read .. => .read
  | .create body => .create body.isArray
  | .replace .. => .replace
  | .patchMany _ | .patchOne .. => .patch
  | .delete _ => .delete
  | .options => .options

/-- What a patch is about: the resources that it changes, or else what it was sent to. -/
def patchedIds (id : Option String) (subs : List SubPatch) : List (Option String) :=
  if subs.isEmpty then [id] else subs.map fun sub => some sub.id

/-- The ids of what a call is about. A collection as a whole has none. -/
def targetIds (call : Call) : Except PatchFault (List (Option String)) :=
  match call with
  | .list _ | .create _ | .options => .ok [none]
  | .read id _ | .replace id _ | .delete id => .ok [some id]
  | .patchMany _ => call.subPatches.map (patchedIds none)
  | .patchOne id _ => call.subPatches.map (patchedIds (some id))

end Call

namespace Server

variable {s : Server} {p : Principal} {place : Call.Place}

def authorizeAll (s : Server) (p : Principal) (place : Call.Place) (call : Call) :
    Except ServiceError Unit := do
  let ids ← patchFault call.targetIds
  ids.forM (s.authorize p place call.operation)

/-- Nobody is denied by this. -/
def Allows {α : Type} (x : Except ServiceError α) : Prop := x ≠ .error .forbidden

namespace Allows

variable {ε α β : Type}

theorem ok (a : α) : Allows (.ok a) := nofun

theorem bind {x : Except ServiceError α} {f : α → Except ServiceError β} (hFirst : Allows x)
    (hRest : ∀ a, Allows (f a)) : Allows (x >>= f) := Outcome.bind_ne_error hFirst hRest

theorem mapError (x : Except ε α) {f : ε → ServiceError} (h : ∀ e, f e ≠ .forbidden) :
    Allows (x.mapError f) := Outcome.mapError_ne_error h

theorem mapM {f : α → Except ServiceError β} (h : ∀ a, Allows (f a)) (xs : List α) :
    Allows (xs.mapM f) := Outcome.mapM_ne_error h xs

end Allows

theorem lookUp_allows : Allows (s.lookUp place) := by
  rw [lookUp]
  split <;> exact nofun

theorem lookUpWritable_allows : Allows (s.lookUpWritable place) := by
  refine lookUp_allows.bind fun e => ?_
  split <;> exact nofun

theorem plan_allows (e : Entity) (parameters : List (String × String)) :
    Allows (s.plan e parameters) :=
  (Allows.mapError _ nofun).bind fun _ => .mapError _ nofun

theorem insertion_allows (e : Entity) (members : List (String × Json)) :
    Allows (insertion e members) := .mapError _ nofun

theorem rowPatch_allows (e : Entity) (sub : SubPatch) : Allows (rowPatch e sub) :=
  (Allows.mapError _ nofun).bind fun _ =>
    (Allows.mapError _ nofun).bind fun _ =>
      (Allows.mapError _ nofun).bind fun _ => .ok _

/-- The outcome `x` is decided by `check` first, and denied only by it. -/
def Guards {α : Type} (check : Except ServiceError Unit) (x : Except ServiceError α) : Prop :=
  ∃ rest, Allows rest ∧ x = (do check; rest)

namespace Guards

variable {α β : Type} {check : Except ServiceError Unit} {x : Except ServiceError α}

theorem bind {f : Unit → Except ServiceError α} (h : Allows (f ())) : Guards check (check >>= f) :=
  ⟨f (), h, rfl⟩

theorem after (y : Except ServiceError β) {f : β → Except ServiceError Unit}
    {g : β → Except ServiceError α} (h : ∀ b, Guards (f b) (g b)) :
    Guards (y >>= f) (y >>= g) := by
  cases y with
  | ok b => exact h b
  | error e =>
    -- nothing comes after the check, so whatever denies nobody will do
    exact ⟨.error .emptyPatch, nofun, rfl⟩

theorem eq_ok_of_ok {a : α} (h : Guards check (.ok a)) : check = .ok () := by
  obtain ⟨rest, -, hEq⟩ := h
  obtain ⟨⟨⟩, hCheck, -⟩ := Outcome.bind_eq_ok_iff.mp hEq.symm
  exact hCheck

theorem denied_iff (h : Guards check x) : x = .error .forbidden ↔ check = .error .forbidden := by
  obtain ⟨rest, hRest, rfl⟩ := h
  cases check with
  | ok _ => exact ⟨fun hDenied => absurd hDenied hRest, nofun⟩
  | error e =>
    exact ⟨fun hDenied => congrArg Except.error (Except.error.inj hDenied),
      fun hDenied => congrArg Except.error (Except.error.inj hDenied)⟩

end Guards

theorem authorizeAll_of_target {call : Call} {id : Option String} (h : call.targetIds = .ok [id]) :
    s.authorizeAll p place call = s.authorize p place call.operation id := by
  rw [authorizeAll, h]
  exact Outcome.forM_singleton _ id

theorem authorizeAll_patch {call : Call} {id : Option String} (hOperation : call.operation = .patch)
    (h : call.targetIds = call.subPatches.map (Call.patchedIds id)) :
    s.authorizeAll p place call = (do
      let os ← patchFault call.operations
      let subs ← patchFault (SubPatch.split os)
      (Call.patchedIds id subs).forM (s.authorize p place .patch)) := by
  rw [authorizeAll, h, hOperation, Call.subPatches]
  cases call.operations with
  | error fault => rfl
  | ok os =>
    change (patchFault ((SubPatch.split os).map _) >>= _) = (patchFault (SubPatch.split os) >>= _)
    cases SubPatch.split os <;> rfl

theorem preparePatch_guarded (id : Option String) (os : List PatchOperation) :
    Guards
      (do
        let subs ← patchFault (SubPatch.split os)
        (Call.patchedIds id subs).forM (s.authorize p place .patch))
      (s.preparePatch p place id os) := by
  refine .after _ fun subs => ?_
  rw [Call.patchedIds]
  split
  · rw [Outcome.forM_singleton]
    exact .bind nofun
  · change Guards (forM (subs.map fun sub => some sub.id) _) _
    rw [List.forM_map]
    exact .bind (lookUpWritable_allows.bind fun e =>
      (Allows.mapM (rowPatch_allows e) _).bind fun _ => .ok _)

theorem patchFault_map_bind {α β γ : Type} (x : Except PatchFault α) (f : α → β)
    (g : β → Except ServiceError γ) :
    patchFault (x.map f) >>= g = patchFault x >>= fun a => g (f a) := by
  cases x <;> rfl

/-- A call is authorized on all that it is about before anything else can fail, but for the text
of a patch. -/
theorem prepare_guarded (p : Principal) (place : Call.Place) (call : Call) :
    Guards (s.authorizeAll p place call) (s.prepare p place call) := by
  cases call with
  | list parameters =>
    rw [authorizeAll_of_target rfl]
    exact .bind (lookUp_allows.bind fun e => (plan_allows e parameters).bind fun _ => .ok _)
  | read id parameters =>
    rw [authorizeAll_of_target rfl]
    exact .bind (lookUp_allows.bind fun e =>
      (plan_allows e parameters).bind fun _ => (Allows.mapError _ nofun).bind fun _ => .ok _)
  | create body =>
    rw [authorizeAll_of_target rfl]
    exact .bind (lookUpWritable_allows.bind fun e =>
      (Allows.mapError _ nofun).bind fun _ =>
        (Allows.mapError _ nofun).bind fun _ =>
          (Allows.mapM (insertion_allows e) _).bind fun _ => .ok _)
  | replace id body =>
    rw [authorizeAll_of_target rfl]
    exact .bind (lookUpWritable_allows.bind fun e =>
      (Allows.mapError _ nofun).bind fun _ => (Allows.mapError _ nofun).bind fun _ => .ok _)
  | patchMany body =>
    rw [authorizeAll_patch rfl rfl]
    exact .after _ fun os => preparePatch_guarded none os
  | patchOne id body =>
    rw [authorizeAll_patch rfl rfl, Call.operations, patchFault_map_bind]
    exact .after _ fun os => preparePatch_guarded (some id) _
  | delete id =>
    rw [authorizeAll_of_target rfl]
    exact .bind (lookUpWritable_allows.bind fun e => (Allows.mapError _ nofun).bind fun _ => .ok _)
  | options =>
    rw [authorizeAll_of_target rfl]
    exact .bind (lookUp_allows.bind fun _ => .ok _)

theorem authorizeAll_eq_ok_iff {call : Call} :
    s.authorizeAll p place call = .ok () ↔
      ∃ ids, call.targetIds = .ok ids ∧
        ∀ id ∈ ids, s.gate.allows p call.operation ⟨place.domain, place.entity, id⟩ = true := by
  have hAuthorize : ∀ id, s.authorize p place call.operation id = .ok () ↔
      s.gate.allows p call.operation ⟨place.domain, place.entity, id⟩ = true := fun id => by
    rw [authorize, Gate.authorize]
    split <;> simp_all
  constructor
  · intro h
    obtain ⟨ids, hIds, hAll⟩ := Outcome.bind_eq_ok_iff.mp h
    exact ⟨ids, Outcome.mapError_eq_ok_iff.mp hIds, fun id hId =>
      (hAuthorize id).mp (Outcome.forM_eq_ok_iff.mp hAll id hId)⟩
  · rintro ⟨ids, hIds, hAll⟩
    exact Outcome.bind_eq_ok_iff.mpr ⟨ids, Outcome.mapError_eq_ok_iff.mpr hIds,
      Outcome.forM_eq_ok_iff.mpr fun id hId => (hAuthorize id).mpr (hAll id hId)⟩

end Server

end TableGateway
