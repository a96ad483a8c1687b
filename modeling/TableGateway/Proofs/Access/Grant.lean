import Mathlib.Data.List.Forall2
import TableGateway.Http.Answer
import TableGateway.Proofs.Outcome

/-!
# What is granted

A principal has a capability on a target when one of its roles has it, or when a grant that covers
the target gives it to the principal. Nothing else counts: not the order of roles and grants, and
not the grants whose access text is not understood.
-/

namespace TableGateway

theorem Role.ofName?_eq_some_iff {s : String} {r : Role} :
    Role.ofName? s = some r ↔ Text.folded r.name = Text.folded (Text.trimmed s) := by
  have hDistinct : ∀ a b : Role, Text.folded a.name = Text.folded b.name → a = b := by
    intro a b
    cases a <;> cases b <;> decide
  have hMem : r ∈ all := by cases r <;> decide
  rw [ofName?, find?_eq_some_iff_of_unique hMem, Text.sameName_eq_true_iff]
  intro b _ hRole hOther
  rw [Text.sameName_eq_true_iff] at hRole hOther
  exact hDistinct b r (hOther.trans hRole.symm)

namespace Permission

variable {s access : String} {q : Permission} {c : Capability}

/-- The capabilities that a word stands for, in any case and with blanks around it. -/
inductive IsNamed (s : String) : Permission → Prop
  | none (h : Text.lowered (Text.trimmed s) = "none") : IsNamed s empty
  | all (h : Text.lowered (Text.trimmed s) = "all") : IsNamed s full
  | single {c : Capability} (h : Text.lowered (Text.trimmed s) = c.name) : IsNamed s (single c)

theorem ofName?_eq_some_iff : ofName? s = some q ↔ IsNamed s q := by
  have hDistinct : ∀ a b : Capability, a.name = b.name → a = b := by
    intro a b
    cases a <;> cases b <;> decide
  have hFind (c : Capability) :
      (Capability.all.find? fun x => x.name = Text.lowered (Text.trimmed s)) = some c ↔
        c.name = Text.lowered (Text.trimmed s) := by
    rw [find?_eq_some_iff_of_unique c.mem_all, decide_eq_true_eq]
    intro b _ hName hOther
    exact hDistinct b c (by simp_all)
  have hOther (c : Capability) : c.name ≠ "none" ∧ c.name ≠ "all" := by
    cases c <;> decide
  constructor
  · intro h
    rw [ofName?] at h
    split at h
    · next hNone =>
      cases h
      exact .none hNone
    · split at h
      · next hAll =>
        cases h
        exact .all hAll
      · obtain ⟨c, hFound, rfl⟩ := Option.map_eq_some_iff.mp h
        exact .single ((hFind c).mp hFound).symm
  · intro h
    rw [ofName?]
    cases h with
    | none h => exact if_pos h
    | all h =>
      rw [if_neg, if_pos h]
      rw [h]
      decide
    | @single c h =>
      rw [if_neg, if_neg, (hFind c).mpr h.symm, Option.map_some]
      · rw [h]
        exact (hOther c).2
      · rw [h]
        exact (hOther c).1

theorem mapM_ofName?_eq_some_iff {words : List String} {ps : List Permission} :
    words.mapM ofName? = some ps ↔ List.Forall₂ IsNamed words ps := by
  induction words generalizing ps with
  | nil =>
    rw [List.mapM_nil, List.forall₂_nil_left_iff]
    exact ⟨fun h => (Option.some.inj h).symm, fun h => congrArg some h.symm⟩
  | cons word words ih =>
    rw [List.mapM_cons, List.forall₂_cons_left_iff]
    constructor
    · intro h
      obtain ⟨q, hFirst, h⟩ := Option.bind_eq_some_iff.mp h
      obtain ⟨qs, hRest, hAll⟩ := Option.bind_eq_some_iff.mp h
      exact ⟨q, qs, ofName?_eq_some_iff.mp hFirst, ih.mp hRest, (Option.some.inj hAll).symm⟩
    · rintro ⟨q, qs, hFirst, hRest, rfl⟩
      refine Option.bind_eq_some_iff.mpr ⟨q, ofName?_eq_some_iff.mpr hFirst, ?_⟩
      exact Option.bind_eq_some_iff.mpr ⟨qs, ih.mpr hRest, rfl⟩

theorem foldl_union_holds {ps : List Permission} :
    (ps.foldl union q).holds c = true ↔ q.holds c = true ∨ ∃ p ∈ ps, p.holds c = true := by
  induction ps generalizing q with
  | nil => simp
  | cons p ps ih =>
    rw [List.foldl_cons, ih, union, Bool.or_eq_true, List.exists_mem_cons_iff, or_assoc]

/-- The access text is a role that has the capability, or it is a list of words that all stand for
capabilities, one of them for this. -/
inductive Given (access : String) (c : Capability) : Prop
  | role {r : Role} (hName : Text.folded r.name = Text.folded (Text.trimmed access))
      (hHas : r.permission.holds c = true)
  | listed {ps : List Permission} {p : Permission}
      (hRoles : ∀ r : Role, Text.folded r.name ≠ Text.folded (Text.trimmed access))
      (hWords : List.Forall₂ IsNamed (Text.split (· = ',') access) ps) (hMem : p ∈ ps)
      (hHas : p.holds c = true)

theorem ofAccess?_of_role {r : Role}
    (h : Text.folded r.name = Text.folded (Text.trimmed access)) :
    ofAccess? access = some r.permission := by
  rw [ofAccess?, Role.ofName?_eq_some_iff.mpr h]

theorem ofAccess?_eq_some_iff_of_words
    (h : ∀ r : Role, Text.folded r.name ≠ Text.folded (Text.trimmed access)) :
    ofAccess? access = some q ↔
      ∃ ps, List.Forall₂ IsNamed (Text.split (· = ',') access) ps ∧ ps.foldl union empty = q := by
  have hNone : Role.ofName? access = none :=
    Option.eq_none_iff_forall_ne_some.mpr fun r hRole => h r (Role.ofName?_eq_some_iff.mp hRole)
  rw [ofAccess?, hNone]
  simp only [Option.map_eq_some_iff, mapM_ofName?_eq_some_iff]

theorem given_iff : Given access c ↔ ∃ q, ofAccess? access = some q ∧ q.holds c = true := by
  constructor
  · rintro (⟨hName, hHas⟩ | ⟨hRoles, hWords, hMem, hHas⟩)
    · exact ⟨_, ofAccess?_of_role hName, hHas⟩
    · exact ⟨_, (ofAccess?_eq_some_iff_of_words hRoles).mpr ⟨_, hWords, rfl⟩,
        foldl_union_holds.mpr (.inr ⟨_, hMem, hHas⟩)⟩
  · rintro ⟨q, hAccess, hHas⟩
    by_cases hRole : ∃ r : Role, Text.folded r.name = Text.folded (Text.trimmed access)
    · obtain ⟨r, hName⟩ := hRole
      cases (ofAccess?_of_role hName).symm.trans hAccess
      exact .role hName hHas
    · have hRoles := not_exists.mp hRole
      obtain ⟨ps, hWords, rfl⟩ := (ofAccess?_eq_some_iff_of_words hRoles).mp hAccess
      obtain hEmpty | ⟨p, hMem, hHas⟩ := foldl_union_holds.mp hHas
      · cases hEmpty
      · exact .listed hRoles hWords hMem hHas

end Permission

/-- The grant gives the capability to the principal on the target. User ids and ids of resources
are compared exactly, all other names without regard to case. -/
structure Grant.Gives (g : Grant) (p : Principal) (t : Target) (c : Capability) : Prop where
  access : Permission.Given g.access c
  holder : (∃ id, g.holder = .user id ∧ p.user = some id) ∨
    ∃ name, g.holder = .role name ∧ ∃ r ∈ p.roles, Text.folded r = Text.folded name
  domain : Text.folded g.domain = Text.folded t.domain
  entity : ∀ name ∈ g.entity, Text.folded name = Text.folded t.entity
  id : ∀ id ∈ g.id, t.id = some id

/-- One of the roles of the principal has the capability. -/
def Principal.HasByRole (p : Principal) (c : Capability) : Prop :=
  ∃ name ∈ p.roles, ∃ r : Role,
    Text.folded r.name = Text.folded (Text.trimmed name) ∧ r.permission.holds c = true

namespace Grant

variable {g : Grant} {p : Principal} {t : Target} {c : Capability}

theorem heldBy_iff : g.heldBy p = true ↔
    (∃ id, g.holder = .user id ∧ p.user = some id) ∨
      ∃ name, g.holder = .role name ∧ ∃ r ∈ p.roles, Text.folded r = Text.folded name := by
  rw [heldBy]
  cases g.holder with
  | user id => simp
  | role name => simp [Text.sameName_eq_true_iff]

theorem covers_iff : g.covers t = true ↔
    Text.folded g.domain = Text.folded t.domain ∧
      (∀ name ∈ g.entity, Text.folded name = Text.folded t.entity) ∧
        ∀ id ∈ g.id, t.id = some id := by
  have hEntity : (g.entity.map fun name => Text.sameName name t.entity).getD true = true ↔
      ∀ name ∈ g.entity, Text.folded name = Text.folded t.entity := by
    cases g.entity with
    | none => simp
    | some name => simp [Text.sameName_eq_true_iff]
  have hId : (g.id.isNone || decide (g.id = t.id)) = true ↔ ∀ id ∈ g.id, t.id = some id := by
    cases g.id with
    | none => simp
    | some id => simp [eq_comm]
  rw [covers, Bool.and_eq_true, Bool.and_eq_true, Text.sameName_eq_true_iff, hEntity, hId,
    and_assoc]

theorem permission_holds_iff : (g.permission p t).holds c = true ↔ g.Gives p t c := by
  have hAccess : ((Permission.ofAccess? g.access).getD .empty).holds c = true ↔
      Permission.Given g.access c := by
    rw [Permission.given_iff]
    cases Permission.ofAccess? g.access with
    | none => simp [Permission.empty]
    | some q => simp
  rw [permission]
  split
  · next hApplies =>
    obtain ⟨hHeld, hCovers⟩ := Bool.and_eq_true_iff.mp hApplies
    obtain ⟨hDomain, hEntity, hId⟩ := covers_iff.mp hCovers
    rw [hAccess]
    exact ⟨fun h => ⟨h, heldBy_iff.mp hHeld, hDomain, hEntity, hId⟩, Gives.access⟩
  · next hApplies =>
    refine iff_of_false nofun fun h => hApplies ?_
    exact Bool.and_eq_true_iff.mpr
      ⟨heldBy_iff.mpr h.holder, covers_iff.mpr ⟨h.domain, h.entity, h.id⟩⟩

/-- A grant of a collection is one of each resource in it. -/
theorem Gives.of_collection (h : g.Gives p t c) (hId : t.id = none) (id : String) :
    g.Gives p { t with id := some id } c := by
  have hAll : g.id = none := by
    refine Option.eq_none_iff_forall_ne_some.mpr fun granted hSome => ?_
    cases hId.symm.trans (h.id granted hSome)
  refine { h with id := fun granted hSome => ?_ }
  rw [hAll] at hSome
  cases hSome

theorem Gives.mono {p' : Principal} (h : g.Gives p t c) (hUser : p.user = p'.user)
    (hRoles : p.roles ⊆ p'.roles) : g.Gives p' t c := by
  refine { h with holder := h.holder.imp ?_ ?_ }
  · rintro ⟨id, hHolder, hOwn⟩
    exact ⟨id, hHolder, hUser ▸ hOwn⟩
  · rintro ⟨name, hHolder, r, hMem, hSame⟩
    exact ⟨name, hHolder, r, hRoles hMem, hSame⟩

end Grant

theorem Principal.HasByRole.mono {p p' : Principal} {c : Capability} (h : p.HasByRole c)
    (hRoles : p.roles ⊆ p'.roles) : p'.HasByRole c := by
  obtain ⟨name, hMem, hRole⟩ := h
  exact ⟨name, hRoles hMem, hRole⟩

namespace Gate

variable {gate gate' : Gate} {p p' : Principal} {t : Target} {c : Capability}

theorem effective_holds_iff :
    (gate.effective p t).holds c = true ↔ p.HasByRole c ∨ ∃ g ∈ gate, g.Gives p t c := by
  rw [effective, Permission.foldl_union_holds, or_iff_right (by exact nofun)]
  simp only [List.mem_append, or_and_right, exists_or, List.mem_filterMap, List.mem_map,
    Option.map_eq_some_iff, Role.ofName?_eq_some_iff]
  constructor
  · rintro (⟨q, ⟨name, hMem, r, hName, rfl⟩, hHas⟩ | ⟨q, ⟨g, hMem, rfl⟩, hHas⟩)
    · exact .inl ⟨name, hMem, r, hName, hHas⟩
    · exact .inr ⟨g, hMem, Grant.permission_holds_iff.mp hHas⟩
  · rintro (⟨name, hMem, r, hName, hHas⟩ | ⟨g, hMem, hGives⟩)
    · exact .inl ⟨_, ⟨name, hMem, r, hName, rfl⟩, hHas⟩
    · exact .inr ⟨_, ⟨g, hMem, rfl⟩, Grant.permission_holds_iff.mpr hGives⟩

theorem effective_mono (hGrants : gate ⊆ gate') (hUser : p.user = p'.user)
    (hRoles : p.roles ⊆ p'.roles) (h : (gate.effective p t).holds c = true) :
    (gate'.effective p' t).holds c = true := by
  rw [effective_holds_iff] at h ⊢
  refine h.imp (·.mono hRoles) ?_
  rintro ⟨g, hMem, hGives⟩
  exact ⟨g, hGrants hMem, hGives.mono hUser hRoles⟩

/-- Only which grants and roles there are counts. -/
theorem effective_eq_of_subset (hGrants : gate ⊆ gate') (hGrants' : gate' ⊆ gate)
    (hUser : p.user = p'.user) (hRoles : p.roles ⊆ p'.roles) (hRoles' : p'.roles ⊆ p.roles) :
    gate.effective p t = gate'.effective p' t := by
  apply Permission.ext
  funext c
  exact Bool.eq_iff_iff.mpr ⟨effective_mono hGrants hUser hRoles,
    effective_mono hGrants' hUser.symm hRoles'⟩

/-- A grant whose access text is not understood might as well be missing. -/
theorem effective_of_unread {before behind : Gate} {g : Grant}
    (h : Permission.ofAccess? g.access = none) :
    Gate.effective (before ++ g :: behind) p t = Gate.effective (before ++ behind) p t := by
  have hNothing (c : Capability) : ¬ g.Gives p t c := by
    intro hGives
    obtain ⟨q, hAccess, -⟩ := Permission.given_iff.mp hGives.access
    cases h.symm.trans hAccess
  apply Permission.ext
  funext c
  rw [Bool.eq_iff_iff, effective_holds_iff, effective_holds_iff]
  simp only [List.mem_append, List.mem_cons, or_and_right, exists_or, exists_eq_left, hNothing c,
    false_or]

theorem effective_of_collection (hCollection : t.id = none) (id : String)
    (h : (gate.effective p t).holds c = true) :
    (gate.effective p { t with id := some id }).holds c = true := by
  rw [effective_holds_iff] at h ⊢
  refine h.imp_right ?_
  rintro ⟨g, hMem, hGives⟩
  exact ⟨g, hMem, hGives.of_collection hCollection id⟩

theorem effective_of_no_roles (h : p'.roles = []) (hUser : p'.user = p.user) :
    (gate.effective p' t).holds c = true ↔
      ∃ g ∈ gate, (∃ id, g.holder = .user id ∧ p.user = some id) ∧ g.Gives p t c := by
  rw [effective_holds_iff, or_iff_right]
  · constructor
    · rintro ⟨g, hMem, hGives⟩
      obtain ⟨id, hHolder, hOwn⟩ | ⟨name, -, r, hRole, -⟩ := hGives.holder
      · have hHolds : ∃ id, g.holder = .user id ∧ p.user = some id :=
          ⟨id, hHolder, hUser ▸ hOwn⟩
        exact ⟨g, hMem, hHolds, { hGives with holder := .inl hHolds }⟩
      · rw [h] at hRole
        cases hRole
    · rintro ⟨g, hMem, ⟨id, hHolder, hOwn⟩, hGives⟩
      exact ⟨g, hMem, { hGives with holder := .inl ⟨id, hHolder, hUser.trans hOwn⟩ }⟩
  · rintro ⟨name, hRole, -⟩
    rw [h] at hRole
    cases hRole

/-- A capability is there exactly when a role of the principal has it or a grant gives it. So roles
and grants may stand in any order, more of them never take anything away, and what is not understood
adds nothing; what is allowed for a collection is allowed for all that is in it; and where the roles
of a request are not trusted, nothing counts but what is granted to the user. -/
theorem effective_is_granted (gate : Gate) (p : Principal) (t : Target) :
    (∀ c, (gate.effective p t).holds c = true ↔ p.HasByRole c ∨ ∃ g ∈ gate, g.Gives p t c) ∧
    (∀ gate' p', gate.Perm gate' → p.user = p'.user → p.roles.Perm p'.roles →
      gate.effective p t = Gate.effective gate' p' t) ∧
    (∀ gate' p', gate ⊆ gate' → p.user = p'.user → p.roles ⊆ p'.roles →
      (Gate.effective gate' p' t).contains (gate.effective p t) = true) ∧
    (∀ before g behind, gate = before ++ g :: behind → Permission.ofAccess? g.access = none →
      gate.effective p t = Gate.effective (before ++ behind) p t) ∧
    (t.id = none → ∀ op id, gate.allows p op t = true →
      gate.allows p op { t with id := some id } = true) ∧
    (∀ s : Server, s.gate = gate → s.trustRoleHeaders = false →
      ∀ c, (s.gate.effective (s.trusted p) t).holds c = true ↔
        ∃ g ∈ gate, (∃ id, g.holder = .user id ∧ p.user = some id) ∧ g.Gives p t c) := by
  refine ⟨fun c => effective_holds_iff, ?_, ?_, ?_, ?_, ?_⟩
  · intro gate' p' hGrants hUser hRoles
    exact effective_eq_of_subset hGrants.subset hGrants.symm.subset hUser hRoles.subset
      hRoles.symm.subset
  · intro gate' p' hGrants hUser hRoles
    exact Permission.contains_eq_true_iff.mpr fun c => effective_mono hGrants hUser hRoles
  · rintro before g behind rfl hUnread
    exact effective_of_unread hUnread
  · intro hCollection op id hAllows
    rw [allows, Permission.contains_eq_true_iff] at hAllows ⊢
    exact fun c hc => effective_of_collection hCollection id (hAllows c hc)
  · rintro s rfl hUntrusted c
    have hTrusted : s.trusted p = { p with roles := [] } := by
      rw [Server.trusted, hUntrusted, if_neg Bool.false_ne_true]
    rw [hTrusted]
    exact effective_of_no_roles rfl rfl

/-- What is granted to a user on one order, and to clerks in all of sales. -/
def sampleGrants : Gate :=
  [⟨.user "bob", "sales", some "orders", some "42", "patch"⟩,
    ⟨.role "clerks", "SALES", none, none, "get, search"⟩,
    ⟨.user "bob", "sales", none, none, "teleport"⟩]

def sampleClerk : Principal := { user := some "bob", roles := ["Clerks"] }

def sampleOrders : Target := ⟨"Sales", "Orders", none⟩

/-- A server that does not trust the roles of requests. -/
def sampleOffice : Server where
  catalog := ⟨[]⟩
  gate := sampleGrants
  limits := {}
  audit := {}
  trustRoleHeaders := false
  maxBodyBytes := 100
  now := ⟨0, 0⟩

/-- The clerk reads every order and patches one of them. Without the role only the patch is left. -/
theorem sampleGrants_are_effective :
    (sampleGrants.effective sampleClerk sampleOrders).holds .get = true ∧
    (sampleGrants.effective sampleClerk sampleOrders).holds .patch = false ∧
    sampleGrants.effective sampleClerk sampleOrders =
      Gate.effective sampleGrants.reverse sampleClerk sampleOrders ∧
    (Gate.effective sampleGrants { sampleClerk with roles := ["Clerks", "Owner"] }
      sampleOrders).contains (sampleGrants.effective sampleClerk sampleOrders) = true ∧
    Permission.ofAccess? "teleport" = none ∧
    sampleGrants.effective sampleClerk sampleOrders =
      Gate.effective (sampleGrants.take 2) sampleClerk sampleOrders ∧
    sampleGrants.allows sampleClerk .read { sampleOrders with id := some "43" } = true ∧
    (sampleGrants.effective (sampleOffice.trusted sampleClerk) sampleOrders).holds .get = false ∧
    (sampleGrants.effective (sampleOffice.trusted sampleClerk)
      { sampleOrders with id := some "42" }).holds .patch = true := by
  have hTeleport : Permission.ofAccess? "teleport" = none := rfl
  have hRead : sampleGrants.allows sampleClerk .read sampleOrders = true := by decide
  have hBob : Grant.Gives ⟨.user "bob", "sales", some "orders", some "42", "patch"⟩ sampleClerk
      { sampleOrders with id := some "42" } .patch :=
    Grant.permission_holds_iff.mp (by decide)
  obtain ⟨hGranted, hOrder, hMore, hUnread, hCollection, -⟩ :=
    effective_is_granted sampleGrants sampleClerk sampleOrders
  obtain ⟨-, -, -, -, -, hUntrusted⟩ :=
    effective_is_granted sampleGrants sampleClerk { sampleOrders with id := some "42" }
  refine ⟨?_, by decide, ?_, ?_, hTeleport, ?_, ?_, by decide, ?_⟩
  · exact (hGranted .get).mpr (.inr ⟨_, List.mem_cons_of_mem _ List.mem_cons_self,
      Grant.permission_holds_iff.mp (by decide)⟩)
  · exact hOrder sampleGrants.reverse sampleClerk (List.reverse_perm _).symm rfl (.refl _)
  · exact hMore sampleGrants _ (List.Subset.refl _) rfl
      (List.subset_append_left ["Clerks"] ["Owner"])
  · exact hUnread (sampleGrants.take 2) ⟨.user "bob", "sales", none, none, "teleport"⟩ [] rfl
      hTeleport
  · exact hCollection rfl .read "43" hRead
  · exact (hUntrusted sampleOffice rfl rfl .patch).mpr
      ⟨_, List.mem_cons_self, ⟨"bob", rfl, rfl⟩, hBob⟩

end Gate

end TableGateway
