import TableGateway.Text.Basic

/-!
# Permissions

A permission is a set of capabilities. Roles are names for fixed permissions, and an access text is
either a role or a list of capabilities.
-/

namespace TableGateway

inductive Capability
  | get | search | post | put | delete | patch | bulk | options
deriving DecidableEq, Repr

namespace Capability

def all : List Capability := [.get, .search, .post, .put, .delete, .patch, .bulk, .options]

theorem mem_all (c : Capability) : c ∈ all := by
  cases c <;> decide

def name : Capability → String
  | .get => "get"
  | .search => "search"
  | .post => "post"
  | .put => "put"
  | .delete => "delete"
  | .patch => "patch"
  | .bulk => "bulk"
  | .options => "options"

def weight : Capability → Nat
  | .get => 1
  | .search => 2
  | .post => 4
  | .put => 8
  | .delete => 16
  | .patch => 32
  | .bulk => 64
  | .options => 128

end Capability

@[ext] structure Permission where
  holds : Capability → Bool

namespace Permission

def empty : Permission := ⟨fun _ => false⟩

def full : Permission := ⟨fun _ => true⟩

def single (c : Capability) : Permission := ⟨fun x => x = c⟩

def ofList (cs : List Capability) : Permission := ⟨fun x => cs.contains x⟩

def union (p q : Permission) : Permission := ⟨fun c => p.holds c || q.holds c⟩

def inter (p q : Permission) : Permission := ⟨fun c => p.holds c && q.holds c⟩

/-- Whether `p` has every capability of `q`. -/
def contains (p q : Permission) : Bool := Capability.all.all fun c => !q.holds c || p.holds c

theorem contains_eq_true_iff {p q : Permission} :
    p.contains q = true ↔ ∀ c, q.holds c = true → p.holds c = true := by
  constructor
  · intro h c hq
    have := List.all_eq_true.mp h c (Capability.mem_all c)
    simpa [hq] using this
  · intro h
    refine List.all_eq_true.mpr fun c _ => ?_
    cases hq : q.holds c
    · simp
    · simp [h c hq]

def capabilities (p : Permission) : List Capability := Capability.all.filter p.holds

def isEmpty (p : Permission) : Bool := p.capabilities.isEmpty

def number (p : Permission) : Nat := p.capabilities.foldl (fun n c => n + c.weight) 0

def toText (p : Permission) : String :=
  if p.isEmpty then "none" else ",".intercalate (p.capabilities.map Capability.name)

/-- One capability by its name in any case, or `none` or `all`. -/
def ofName? (s : String) : Option Permission :=
  let name := Text.lowered (Text.trimmed s)
  if name = "none" then some empty
  else if name = "all" then some full
  else (Capability.all.find? fun c => c.name = name).map single

end Permission

inductive Role
  | viewer | editor | owner | manager | admin
deriving DecidableEq, Repr

namespace Role

def all : List Role := [.viewer, .editor, .owner, .manager, .admin]

def name : Role → String
  | .viewer => "viewer"
  | .editor => "editor"
  | .owner => "owner"
  | .manager => "manager"
  | .admin => "admin"

def ofName? (s : String) : Option Role :=
  all.find? fun r => Text.sameName r.name (Text.trimmed s)

/-- Each role has all capabilities of the one before it. -/
def permission : Role → Permission
  | .viewer => .ofList [.get, .search, .options]
  | .editor => .ofList [.get, .search, .options, .post, .put, .patch]
  | .owner => .ofList [.get, .search, .options, .post, .put, .patch, .delete]
  | .manager => .ofList [.get, .search, .options, .post, .put, .patch, .delete, .bulk]
  | .admin => .full

end Role

/-- The permission of an access text: a role, or capabilities with commas between them. -/
def Permission.ofAccess? (access : String) : Option Permission :=
  match Role.ofName? access with
  | some r => some r.permission
  | none => ((Text.split (· = ',') access).mapM ofName?).map fun ps => ps.foldl union empty

end TableGateway
