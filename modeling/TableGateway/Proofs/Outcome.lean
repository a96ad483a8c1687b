import Mathlib.Data.List.Forall2

/-!
# Outcomes

When a computation that may fail succeeds, so does every step of it. A search through a list finds
an entry when no other entry would do.
-/

namespace TableGateway.Outcome

variable {ε ε' α β : Type}

theorem ok_bind (a : α) (f : α → Except ε β) : .ok a >>= f = f a :=
  rfl

theorem bind_eq_ok_iff {x : Except ε α} {f : α → Except ε β} {b : β} :
    x >>= f = .ok b ↔ ∃ a, x = .ok a ∧ f a = .ok b := by
  cases x with
  | ok a => exact ⟨fun h => ⟨a, rfl, h⟩, fun ⟨a', hEq, h⟩ => by cases hEq; exact h⟩
  | error e => exact ⟨fun h => (by cases h), fun ⟨a, hEq, _⟩ => by cases hEq⟩

theorem bind_eq_error_iff {x : Except ε α} {f : α → Except ε β} {e : ε} :
    x >>= f = .error e ↔ x = .error e ∨ ∃ a, x = .ok a ∧ f a = .error e := by
  cases x with
  | ok a => exact ⟨fun h => .inr ⟨a, rfl, h⟩, fun h => by
      obtain ⟨a', hEq, h⟩ := h.resolve_left nofun
      cases hEq
      exact h⟩
  | error e' => exact ⟨fun h => .inl (by cases h; rfl), fun h => by
      rcases h with h | ⟨a, hEq, -⟩
      · cases h
        rfl
      · cases hEq⟩

theorem map_eq_ok_iff {x : Except ε α} {f : α → β} {b : β} :
    x.map f = .ok b ↔ ∃ a, x = .ok a ∧ f a = b := by
  cases x with
  | ok a => simp [Except.map]
  | error e => simp [Except.map]

theorem mapError_eq_ok_iff {x : Except ε α} {f : ε → ε'} {a : α} :
    x.mapError f = .ok a ↔ x = .ok a := by
  cases x with
  | ok a => exact ⟨fun h => (by cases h; rfl), fun h => (by cases h; rfl)⟩
  | error e => exact ⟨fun h => (by cases h), fun h => (by cases h)⟩

theorem mapError_eq_error_iff {x : Except ε α} {f : ε → ε'} {e : ε'} :
    x.mapError f = .error e ↔ ∃ e', x = .error e' ∧ f e' = e := by
  cases x with
  | ok a => simp [Except.mapError]
  | error e' => simp [Except.mapError]

theorem map_eq_error_iff {x : Except ε α} {f : α → β} {e : ε} :
    x.map f = .error e ↔ x = .error e := by
  cases x <;> simp [Except.map]

theorem mapM_eq_ok_iff {f : α → Except ε β} {xs : List α} {ys : List β} :
    xs.mapM f = .ok ys ↔ List.Forall₂ (fun x y => f x = .ok y) xs ys := by
  induction xs generalizing ys with
  | nil =>
    rw [List.mapM_nil, List.forall₂_nil_left_iff]
    exact ⟨fun h => (Except.ok.inj h).symm, fun h => congrArg Except.ok h.symm⟩
  | cons x xs ih =>
    rw [List.mapM_cons, bind_eq_ok_iff, List.forall₂_cons_left_iff]
    constructor
    · rintro ⟨y, hFirst, h⟩
      obtain ⟨zs, hRest, hAll⟩ := bind_eq_ok_iff.mp h
      exact ⟨y, zs, hFirst, ih.mp hRest, (Except.ok.inj hAll).symm⟩
    · rintro ⟨y, zs, hFirst, hRest, rfl⟩
      exact ⟨y, hFirst, bind_eq_ok_iff.mpr ⟨zs, ih.mpr hRest, rfl⟩⟩

theorem exists_of_mem_mapM {f : α → Except ε β} {xs : List α} {ys : List β}
    (h : xs.mapM f = .ok ys) : ∀ y ∈ ys, ∃ x ∈ xs, f x = .ok y := by
  rw [mapM_eq_ok_iff] at h
  induction h with
  | nil => exact nofun
  | @cons x y xs ys hHead _ ih =>
    intro z hz
    rcases List.mem_cons.mp hz with rfl | hz
    · exact ⟨x, List.mem_cons_self, hHead⟩
    · obtain ⟨w, hw, hEq⟩ := ih z hz
      exact ⟨w, List.mem_cons_of_mem x hw, hEq⟩

theorem exists_of_mem_of_mapM {f : α → Except ε β} {xs : List α} {ys : List β}
    (h : xs.mapM f = .ok ys) : ∀ x ∈ xs, ∃ y ∈ ys, f x = .ok y := by
  rw [mapM_eq_ok_iff] at h
  induction h with
  | nil => exact nofun
  | @cons x y xs ys hHead _ ih =>
    intro z hz
    rcases List.mem_cons.mp hz with rfl | hz
    · exact ⟨y, List.mem_cons_self, hHead⟩
    · obtain ⟨w, hw, hEq⟩ := ih z hz
      exact ⟨w, List.mem_cons_of_mem y hw, hEq⟩

theorem exists_of_mapM_eq_error {f : α → Except ε β} {xs : List α} {e : ε}
    (h : xs.mapM f = .error e) : ∃ x ∈ xs, f x = .error e := by
  induction xs with
  | nil => cases h
  | cons x xs ih =>
    rw [List.mapM_cons, bind_eq_error_iff] at h
    rcases h with hFirst | ⟨y, -, hRest⟩
    · exact ⟨x, List.mem_cons_self, hFirst⟩
    · rcases bind_eq_error_iff.mp hRest with hRest | ⟨ys, -, hAll⟩
      · obtain ⟨z, hz, hError⟩ := ih hRest
        exact ⟨z, List.mem_cons_of_mem x hz, hError⟩
      · cases hAll

theorem exists_of_mem_option_mapM {f : α → Except ε β} {x : Option α} {y : Option β}
    (h : x.mapM f = .ok y) : ∀ b ∈ y, ∃ a ∈ x, f a = .ok b := by
  cases x with
  | none =>
    cases h
    exact fun b hb => absurd hb (Option.not_mem_none b)
  | some a =>
    obtain ⟨b, hb, rfl⟩ := map_eq_ok_iff.mp h
    rintro c ⟨⟩
    exact ⟨a, rfl, hb⟩

/-- What is computed from an option that may be left out. -/
theorem getD_map_eq_ok {f : α → Except ε β} {x : Option α} {b fallback : β}
    (h : (x.map f).getD (.ok fallback) = .ok b) : b = fallback ∨ ∃ a ∈ x, f a = .ok b := by
  cases x with
  | none => exact .inl (Except.ok.inj h).symm
  | some a => exact .inr ⟨a, rfl, h⟩

theorem mapM_mapM_eq_ok {γ : Type} {f : α → Except ε β} {g : β → Except ε' γ} {xs : List α}
    {ys : List β} {zs : List γ} (hFirst : xs.mapM f = .ok ys) (hSecond : ys.mapM g = .ok zs) :
    List.Forall₂ (fun x z => ∃ y, f x = .ok y ∧ g y = .ok z) xs zs := by
  rw [mapM_eq_ok_iff] at hFirst hSecond
  induction hFirst generalizing zs with
  | nil =>
    cases hSecond
    exact .nil
  | cons hHead _ ih =>
    cases hSecond with
    | cons hNext hRest => exact .cons ⟨_, hHead, hNext⟩ (ih hRest)

theorem forM_eq_ok_iff {f : α → Except ε Unit} {xs : List α} :
    xs.forM f = .ok () ↔ ∀ x ∈ xs, f x = .ok () := by
  induction xs with
  | nil => exact ⟨fun _ => by simp, fun _ => rfl⟩
  | cons x xs ih =>
    change (f x >>= fun _ => xs.forM f) = .ok () ↔ _
    rw [bind_eq_ok_iff, List.forall_mem_cons, ← ih]
    exact ⟨fun ⟨_, hFirst, hRest⟩ => ⟨hFirst, hRest⟩, fun ⟨hFirst, hRest⟩ => ⟨_, hFirst, hRest⟩⟩

theorem forM_singleton (f : α → Except ε Unit) (x : α) : [x].forM f = f x := by
  change (f x >>= fun _ => pure ()) = f x
  exact bind_pure_unit

/-- A computation fails in this way only where one of its steps does. -/
theorem bind_ne_error {x : Except ε α} {f : α → Except ε β} {e : ε} (hFirst : x ≠ .error e)
    (hRest : ∀ a, f a ≠ .error e) : x >>= f ≠ .error e := by
  cases x with
  | ok a => exact hRest a
  | error e' => exact fun h => hFirst (by cases h; rfl)

theorem mapError_ne_error {x : Except ε α} {f : ε → ε'} {e : ε'} (h : ∀ a, f a ≠ e) :
    x.mapError f ≠ .error e := by
  cases x with
  | ok a => exact nofun
  | error e' => exact fun hEq => h e' (Except.error.inj hEq)

theorem mapM_ne_error {f : α → Except ε β} {e : ε} (h : ∀ a, f a ≠ .error e) (xs : List α) :
    xs.mapM f ≠ .error e := by
  induction xs with
  | nil => exact nofun
  | cons x xs ih =>
    rw [List.mapM_cons]
    exact bind_ne_error (h x) fun y => bind_ne_error ih fun ys => nofun

theorem forM_ne_error {f : α → Except ε Unit} {e : ε} (h : ∀ a, f a ≠ .error e) (xs : List α) :
    xs.forM f ≠ .error e := by
  induction xs with
  | nil => exact nofun
  | cons x xs ih => exact bind_ne_error (h x) fun _ => ih

end TableGateway.Outcome

namespace TableGateway

variable {α : Type} {p : α → Bool} {l : List α} {a : α}

theorem find?_eq_some_of_unique (hMem : a ∈ l) (h : p a = true)
    (hUnique : ∀ b ∈ l, p b = true → b = a) : l.find? p = some a := by
  obtain ⟨b, hFound⟩ := Option.isSome_iff_exists.mp (List.find?_isSome.mpr ⟨a, hMem, h⟩)
  rw [hFound, hUnique b (List.mem_of_find?_eq_some hFound) (List.find?_some hFound)]

theorem find?_eq_some_iff_of_unique (hMem : a ∈ l)
    (hUnique : ∀ b ∈ l, p a = true → p b = true → b = a) : l.find? p = some a ↔ p a = true := by
  constructor
  · exact List.find?_some
  · intro h
    exact find?_eq_some_of_unique hMem h fun b hb => hUnique b hb h

end TableGateway
