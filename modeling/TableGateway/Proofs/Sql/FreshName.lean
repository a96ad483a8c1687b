import TableGateway.Proofs.Sql.Parameters

/-!
# The search for a free name

A base is tested first, and then the base with the numbers from two up, until a name is free. Here
nothing bounds the search. Of more candidates than there are names one is free, so it ends all the
same, and at the first of them.
-/

namespace TableGateway

namespace Parameters

variable {ps : Parameters} {base : List Char}

/-- No value has this name, whatever the case of its letters. -/
def IsFree (ps : Parameters) (name : String) : Prop :=
  ∀ other ∈ ps.names, Text.sameName other name = false

/-- The base with a number behind it. -/
def numbered (base : List Char) (k : Nat) : String :=
  String.ofList (base ++ '_' :: Text.decimal k)

/-- From a number and the name that is tested, what is found and after how many tests. -/
inductive Search (ps : Parameters) (base : List Char) : Nat → String → String → Nat → Prop
  | free {n : Nat} {name : String} : ps.IsFree name → Search ps base n name name 1
  | taken {n tests : Nat} {name found : String} : ¬ ps.IsFree name →
      Search ps base (n + 1) (numbered base (n + 1)) found tests →
      Search ps base n name found (tests + 1)

/-- The base where it is free, and otherwise the base with the least number that makes it free. -/
inductive LeastFree (ps : Parameters) (base : List Char) : String → Prop
  | plain : ps.IsFree (String.ofList base) → LeastFree ps base (String.ofList base)
  | counted {k : Nat} : ¬ ps.IsFree (String.ofList base) → 2 ≤ k → ps.IsFree (numbered base k) →
      (∀ j, 2 ≤ j → j < k → ¬ ps.IsFree (numbered base j)) → LeastFree ps base (numbered base k)

theorem isFree_iff {name : String} :
    ps.IsFree name ↔ Text.lowered name ∉ ps.names.map Text.lowered := by
  simp only [IsFree, List.mem_map, not_exists, not_and, Text.lowered_eq_iff, Bool.not_eq_true]

theorem candidate_zero (base : List Char) : candidate base 0 = String.ofList base := rfl

theorem candidate_succ (base : List Char) (n : Nat) :
    candidate base (n + 1) = numbered base (n + 2) := rfl

/-- A candidate that is found is the first free one, and there are as many before it as there are
names at most. -/
theorem exists_first_free (ps : Parameters) (hint : String) :
    ∃ n ≤ ps.size, ps.freshName hint = candidate (baseName hint) n ∧
      ps.IsFree (candidate (baseName hint) n) ∧
      ∀ k < n, ¬ ps.IsFree (candidate (baseName hint) k) := by
  obtain ⟨-, hBefore, -, hBound⟩ :=
    firstFree_spec (baseName hint) (ps.names.map Text.lowered) ps.size 0
  rw [Nat.zero_add] at hBound
  refine ⟨_, hBound, rfl, isFree_iff.mpr (lowered_freshName_not_mem ps hint), fun k hk hFree => ?_⟩
  exact isFree_iff.mp hFree (hBefore k (Nat.zero_le k) hk)

theorem leastFree_candidate {n : Nat} (hFree : ps.IsFree (candidate base n))
    (hBefore : ∀ k < n, ¬ ps.IsFree (candidate base k)) : ps.LeastFree base (candidate base n) := by
  cases n with
  | zero => exact .plain hFree
  | succ n =>
    refine .counted (hBefore 0 (Nat.succ_pos n)) (by omega) hFree fun j hj hLt => ?_
    obtain ⟨k, rfl⟩ := Nat.exists_eq_add_of_le' hj
    exact hBefore (k + 1) (by omega)

/-- The search goes past the candidates that are taken, with one test for each, and no further. -/
theorem search_iff {n m : Nat} (hFree : ps.IsFree (candidate base (n + m)))
    (hBefore : ∀ k, n ≤ k → k < n + m → ¬ ps.IsFree (candidate base k)) (found : String)
    (tests : Nat) :
    ps.Search base (n + 1) (candidate base n) found tests ↔
      found = candidate base (n + m) ∧ tests = m + 1 := by
  induction m generalizing n tests with
  | zero =>
    constructor
    · intro h
      cases h with
      | free => exact ⟨rfl, rfl⟩
      | taken hTaken => exact absurd hFree hTaken
    · rintro ⟨rfl, rfl⟩
      exact .free hFree
  | succ m ih =>
    have hTaken := hBefore n (Nat.le_refl n) (by omega)
    rw [← Nat.add_assoc, Nat.add_right_comm] at hFree hBefore ⊢
    have hRest := ih hFree fun k hk => hBefore k (by omega)
    rw [candidate_succ] at hRest
    constructor
    · intro h
      cases h with
      | free hNow => exact absurd hNow hTaken
      | taken _ h =>
        obtain ⟨rfl, rfl⟩ := (hRest _).mp h
        exact ⟨rfl, rfl⟩
    · rintro ⟨hFound, rfl⟩
      exact .taken hTaken ((hRest _).mpr ⟨hFound, rfl⟩)

/-- The search ends after one test more than there are names at the latest, with one result, and
that is the name that a value gets. -/
theorem freshName_is_found (ps : Parameters) (hint : String) :
    ps.LeastFree (baseName hint) (ps.freshName hint) ∧
      ∃ tests ≤ ps.size + 1, ∀ found n,
        ps.Search (baseName hint) 1 (String.ofList (baseName hint)) found n ↔
          found = ps.freshName hint ∧ n = tests := by
  obtain ⟨m, hBound, hName, hFree, hBefore⟩ := exists_first_free ps hint
  have hLeast := leastFree_candidate hFree hBefore
  rw [← Nat.zero_add m] at hFree hBefore
  have hSearch := search_iff hFree fun k _ => hBefore k
  rw [Nat.zero_add, Nat.zero_add, candidate_zero, ← hName] at hSearch
  rw [← hName] at hLeast
  exact ⟨hLeast, m + 1, Nat.succ_le_succ hBound, hSearch⟩

end Parameters

end TableGateway
