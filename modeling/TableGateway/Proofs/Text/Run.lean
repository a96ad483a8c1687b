/-!
# Runs of characters

A run is cut off right where its class of characters ends.
-/

namespace TableGateway.Text

variable {α : Type} {p : α → Bool} {cs run rest : List α}

/-- The class does not go on in the rest. -/
def Stops (p : α → Bool) (rest : List α) : Prop := ∀ c ∈ rest.head?, p c = false

theorem takeWhile_append_of_stops (hRun : ∀ c ∈ run, p c = true) (hStops : Stops p rest) :
    (run ++ rest).takeWhile p = run := by
  rw [List.takeWhile_append_of_pos hRun]
  cases rest with
  | nil => simp
  | cons c rest => simp [hStops c rfl]

theorem dropWhile_append_of_stops (hRun : ∀ c ∈ run, p c = true) (hStops : Stops p rest) :
    (run ++ rest).dropWhile p = rest := by
  rw [List.dropWhile_append_of_pos hRun]
  cases rest with
  | nil => rfl
  | cons c rest => simp [hStops c rfl]

theorem stops_dropWhile (p : α → Bool) (cs : List α) : Stops p (cs.dropWhile p) := by
  intro c hc
  have h := List.head?_dropWhile_not p cs
  rw [Option.mem_def.mp hc] at h
  exact h

/-- A list is cut in one way into a run and a rest in which the class does not go on. -/
theorem span_eq_iff :
    cs.takeWhile p = run ∧ cs.dropWhile p = rest ↔
      cs = run ++ rest ∧ (∀ c ∈ run, p c = true) ∧ Stops p rest := by
  constructor
  · rintro ⟨rfl, rfl⟩
    exact ⟨List.takeWhile_append_dropWhile.symm, List.all_eq_true.mp List.all_takeWhile,
      stops_dropWhile p cs⟩
  · rintro ⟨rfl, hRun, hStops⟩
    exact ⟨takeWhile_append_of_stops hRun hStops, dropWhile_append_of_stops hRun hStops⟩

theorem dropWhile_eq_iff :
    cs.dropWhile p = rest ↔ ∃ run, cs = run ++ rest ∧ (∀ c ∈ run, p c = true) ∧ Stops p rest := by
  simp only [← span_eq_iff, exists_and_right, exists_eq', true_and]

end TableGateway.Text
