import TableGateway.Proofs.Filter.Grammar
import TableGateway.Proofs.Outcome

/-!
# What the shape check lets through

The check reads the lexemes once. It lets through what never closes a parenthesis too many, never
opens too many at a time, closes all of them, and does not combine too much.
-/

namespace TableGateway.Lexeme

/-- The parentheses that are open behind these lexemes. -/
def openings (ls : List Lexeme) : Int := (ls.count .opening : Int) - ls.count .closing

theorem openings_cons (l : Lexeme) (ls : List Lexeme) :
    openings (l :: ls) = openings [l] + openings ls := by
  simp only [openings, List.count_cons, List.count_nil]
  omega

namespace Shape

/-- The bounds that every state of the check keeps. -/
structure Within (s : Shape) : Prop where
  depth_le : s.depth ≤ maxFilterDepth
  combinators_lt : s.combinators < maxFilterConditions

/-- The state behind one more lexeme. -/
def next (s : Shape) (l : Lexeme) : Shape where
  before := l :: s.before
  depth := (s.depth + openings [l]).toNat
  combinators := s.combinators + [l].countP isConnective

theorem next_opening (s : Shape) :
    s.next .opening = ⟨.opening :: s.before, s.depth + 1, s.combinators⟩ := by
  simp [next, openings, isConnective, spells]

theorem next_closing {s : Shape} {depth : Nat} (h : s.depth = depth + 1) :
    s.next .closing = ⟨.closing :: s.before, depth, s.combinators⟩ := by
  have hOne : openings [.closing] = -1 := by decide
  have hDepth : (s.depth + openings [.closing]).toNat = depth := by
    rw [hOne, h]
    omega
  simp [next, hDepth, isConnective, spells]

theorem next_other {s : Shape} {l : Lexeme} (hOpening : l ≠ .opening) (hClosing : l ≠ .closing) :
    s.next l = ⟨l :: s.before, s.depth, s.combinators + if l.isConnective then 1 else 0⟩ := by
  simp [next, openings, hOpening, hClosing, List.countP_cons]

theorem step_other {s s' : Shape} {l : Lexeme} (hOpening : l ≠ .opening) (hClosing : l ≠ .closing)
    (h : s.Within) : s.step l = .ok s' ↔ (s.next l).Within ∧ s' = s.next l := by
  have hStep : s.step l =
      if !l.isConnective then .ok { s with before := l :: s.before }
      else if maxFilterConditions ≤ s.combinators + 1 then
        .error (.malformedFilter .tooManyConditions)
      else .ok { s with before := l :: s.before, combinators := s.combinators + 1 } := by
    rw [← Filter.isCombinator_eq_isConnective, step]
    · exact hOpening
    · exact hClosing
  rw [hStep, next_other hOpening hClosing]
  by_cases hConnective : l.isConnective = true
  · simp only [hConnective, Bool.not_true, Bool.false_eq_true, if_false, if_true]
    split
    · next hMany =>
      simp only [reduceCtorEq, false_iff]
      rintro ⟨hWithin, -⟩
      exact absurd hWithin.combinators_lt (by simpa using hMany)
    · next hFew =>
      rw [Except.ok.injEq, eq_comm, and_iff_right ⟨h.depth_le, by simpa using hFew⟩]
  · simp only [hConnective, Bool.not_false, if_true, Bool.false_eq_true, if_false, Nat.add_zero]
    rw [Except.ok.injEq, eq_comm, and_iff_right ⟨h.depth_le, h.combinators_lt⟩]

theorem step_opening {s s' : Shape} (h : s.Within) :
    s.step .opening = .ok s' ↔ (s.next .opening).Within ∧ s' = s.next .opening := by
  rw [step, next_opening]
  split
  · next hDeep =>
    simp only [reduceCtorEq, false_iff]
    rintro ⟨hWithin, -⟩
    exact absurd hWithin.depth_le (by simpa using hDeep)
  · next hShallow =>
    rw [Except.ok.injEq, eq_comm, and_iff_right ⟨by simpa using hShallow, h.combinators_lt⟩]

theorem step_closing {s s' : Shape} (h : s.Within) :
    s.step .closing = .ok s' ↔
      0 < s.depth ∧ (s.next .closing).Within ∧ s' = s.next .closing := by
  rw [step]
  split
  · next hDepth => simp [hDepth]
  · next depth hDepth =>
    have hWithin : Within ⟨.closing :: s.before, depth, s.combinators⟩ :=
      ⟨Nat.le_of_succ_le (hDepth ▸ h.depth_le), h.combinators_lt⟩
    rw [next_closing hDepth, Except.ok.injEq, eq_comm, and_iff_right hWithin,
      and_iff_right (by omega)]

theorem step_eq_ok_iff {s s' : Shape} {l : Lexeme} (h : s.Within) :
    s.step l = .ok s' ↔ 0 ≤ s.depth + openings [l] ∧ (s.next l).Within ∧ s' = s.next l := by
  by_cases hOpening : l = .opening
  · subst hOpening
    rw [step_opening h]
    simp [openings]
    omega
  by_cases hClosing : l = .closing
  · subst hClosing
    rw [step_closing h]
    simp [openings]
    omega
  rw [step_other hOpening hClosing h]
  simp [openings, hOpening, hClosing]

/-- The bounds hold at every place of these lexemes. -/
def Passes (s : Shape) (ls : List Lexeme) : Prop :=
  ∀ before after, ls = before ++ after →
    0 ≤ s.depth + openings before ∧ s.depth + openings before ≤ maxFilterDepth ∧
      s.combinators + before.countP isConnective < maxFilterConditions

theorem passes_nil {s : Shape} (h : s.Within) : s.Passes [] := by
  intro before after hCut
  obtain ⟨rfl, -⟩ := List.append_eq_nil_iff.mp hCut.symm
  have hDepth := h.depth_le
  refine ⟨?_, ?_, ?_⟩
  · simp [openings]
  · simpa [openings] using hDepth
  · simpa using h.combinators_lt

theorem depth_next {s : Shape} {l : Lexeme} (h : 0 ≤ s.depth + openings [l])
    (before : List Lexeme) :
    ((s.next l).depth : Int) + openings before = s.depth + openings (l :: before) := by
  rw [openings_cons, ← Int.add_assoc]
  exact congrArg (· + openings before) (Int.toNat_of_nonneg h)

theorem combinators_next (s : Shape) (l : Lexeme) (before : List Lexeme) :
    (s.next l).combinators + before.countP isConnective =
      s.combinators + (l :: before).countP isConnective := by
  simp only [next, List.countP_cons, List.countP_nil]
  omega

theorem passes_cons {s : Shape} {l : Lexeme} {ls : List Lexeme} (h : s.Within) :
    s.Passes (l :: ls) ↔
      0 ≤ s.depth + openings [l] ∧ (s.next l).Within ∧ (s.next l).Passes ls := by
  constructor
  · intro hPasses
    obtain ⟨hNonneg, hDepth, hCombinators⟩ := hPasses [l] ls rfl
    refine ⟨hNonneg, ⟨Int.toNat_le.mpr hDepth, hCombinators⟩, fun before after hCut => ?_⟩
    rw [depth_next hNonneg, combinators_next]
    exact hPasses (l :: before) after (congrArg (l :: ·) hCut)
  · rintro ⟨hNonneg, -, hPasses⟩ before after hCut
    cases before with
    | nil => exact passes_nil h [] [] rfl
    | cons l' before =>
      obtain ⟨rfl, hRest⟩ := List.cons.inj hCut
      rw [← depth_next hNonneg, ← combinators_next]
      exact hPasses before after hRest

/-- What is left of the check is whether all parentheses are closed. -/
theorem foldlM_step_eq_ok_iff {s s' : Shape} {ls : List Lexeme} (h : s.Within) :
    ls.foldlM step s = .ok s' ↔ s.Passes ls ∧ s' = ls.foldl next s := by
  induction ls generalizing s with
  | nil =>
    rw [and_iff_right (passes_nil h)]
    exact ⟨fun hEq => (Except.ok.inj hEq).symm, fun hEq => congrArg Except.ok hEq.symm⟩
  | cons l ls ih =>
    rw [List.foldlM_cons, Outcome.bind_eq_ok_iff, passes_cons h, List.foldl_cons]
    constructor
    · rintro ⟨t, hStep, hRest⟩
      obtain ⟨hNonneg, hWithin, rfl⟩ := (step_eq_ok_iff h).mp hStep
      obtain ⟨hPasses, hEq⟩ := (ih hWithin).mp hRest
      exact ⟨⟨hNonneg, hWithin, hPasses⟩, hEq⟩
    · rintro ⟨⟨hNonneg, hWithin, hPasses⟩, hEq⟩
      exact ⟨s.next l, (step_eq_ok_iff h).mpr ⟨hNonneg, hWithin, rfl⟩,
        (ih hWithin).mpr ⟨hPasses, hEq⟩⟩

theorem depth_foldl_next {s : Shape} {ls : List Lexeme} (h : s.Within) (hPasses : s.Passes ls) :
    ((ls.foldl next s).depth : Int) = s.depth + openings ls := by
  induction ls generalizing s with
  | nil => simp [openings]
  | cons l ls ih =>
    obtain ⟨hNonneg, hWithin, hRest⟩ := (passes_cons h).mp hPasses
    rw [List.foldl_cons, ih hWithin hRest, openings_cons, next]
    simp only [Int.toNat_of_nonneg hNonneg, Int.add_assoc]

end Shape

theorem checkShape_eq_ok_iff {ls : List Lexeme} :
    checkShape ls = .ok () ↔ Shape.Passes {} ls ∧ openings ls = 0 := by
  have hStart : Shape.Within {} := ⟨Nat.zero_le _, by decide⟩
  rw [checkShape, Outcome.bind_eq_ok_iff]
  constructor
  · rintro ⟨s, hFold, hDepth⟩
    obtain ⟨hPasses, rfl⟩ := (Shape.foldlM_step_eq_ok_iff hStart).mp hFold
    split at hDepth
    · next hZero =>
      have hOpen := Shape.depth_foldl_next hStart hPasses
      rw [hZero] at hOpen
      exact ⟨hPasses, by simpa using hOpen.symm⟩
    · cases hDepth
  · rintro ⟨hPasses, hClosed⟩
    refine ⟨_, (Shape.foldlM_step_eq_ok_iff hStart).mpr ⟨hPasses, rfl⟩, if_pos ?_⟩
    have hOpen := Shape.depth_foldl_next hStart hPasses
    rw [hClosed] at hOpen
    exact Int.ofNat_eq_zero.mp hOpen

end TableGateway.Lexeme
