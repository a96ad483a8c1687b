import TableGateway.Proofs.Number.Single

/-!
# Nearest doubles

A quotient is rounded to the double that is nearest to it, and to the one with the even significand
where two are equally near. From the middle between the greatest double and the power of two after
it on, it becomes infinite. What is not too small is moved by at most one part in `2 ^ 53`.
-/

namespace TableGateway.Binary64

variable {num den k s r : Nat} {x : Binary64}

/-- How far apart two numbers are. -/
def gap (a b : Nat) : Nat := ((a : Int) - b).natAbs

theorem gap_lt_gap {a b c : Nat} (hLess : a < b) (hLe : b ≤ c) : gap b c < gap a c := by
  rw [gap, gap]
  omega

/-- Half a step is at most one part in `2 ^ 53` of what is at least `2 ^ 52` steps. -/
theorem gap_mul_le {a b step : Nat} (hUpper : 2 * a ≤ 2 * b + step) (hLower : 2 * b ≤ 2 * a + step)
    (hLarge : 2 ^ 52 * step ≤ b) : gap a b * 2 ^ 53 ≤ b := by
  rw [gap]
  omega

theorem div_mul_cases (num den k : Nat) :
    k = num / den ∨ k * den + den ≤ num / den * den ∨ num / den * den + den ≤ k * den := by
  rcases Nat.lt_trichotomy k (num / den) with hLess | hEq | hMore
  · right
    left
    rw [← Nat.succ_mul]
    exact Nat.mul_le_mul_right den hLess
  · exact .inl hEq
  · right
    right
    rw [← Nat.succ_mul]
    exact Nat.mul_le_mul_right den hMore

/-- No multiple is nearer than the rounded one. Where another is as near, the rounded one is even
and the other is odd. -/
theorem roundDiv_nearest (num k : Nat) (h : 0 < den) :
    gap (roundDiv num den * den) num ≤ gap (k * den) num ∧
      (gap (k * den) num = gap (roundDiv num den * den) num →
        k = roundDiv num den ∨ (roundDiv num den % 2 = 0 ∧ k % 2 = 1)) := by
  have hDivision : num / den * den + num % den = num := Nat.div_add_mod' num den
  have hRest : num % den < den := Nat.mod_lt num h
  have hNext : (num / den + 1) * den = num / den * den + den := Nat.succ_mul _ _
  rcases div_mul_cases num den k with rfl | hPlace
  · rw [roundDiv]
    split
    · rw [hNext, gap, gap]
      omega
    · exact ⟨Nat.le_refl _, fun _ => .inl rfl⟩
  · have hAbove : num / den * den + den ≤ k * den → k = num / den + 1 ∨
        num / den * den + den + den ≤ k * den := by
      intro hFar
      rcases Nat.eq_or_lt_of_le (Nat.le_of_mul_le_mul_right (hNext.le.trans hFar) h) with hk | hk
      · exact .inl hk.symm
      · right
        rw [← hNext, ← Nat.succ_mul]
        exact Nat.mul_le_mul_right den hk
    rw [roundDiv]
    split
    · rw [hNext, gap, gap]
      omega
    · rw [gap, gap]
      omega

theorem le_two_mul_roundDiv_mul (num : Nat) (h : 0 < den) :
    2 * num ≤ 2 * (roundDiv num den * den) + den := by
  have hDivision : num / den * den + num % den = num := Nat.div_add_mod' num den
  have hRest : num % den < den := Nat.mod_lt num h
  have hNext : (num / den + 1) * den = num / den * den + den := Nat.succ_mul _ _
  rw [roundDiv]
  split
  · omega
  · omega

/-- The middle after an odd number is rounded up. -/
theorem lt_roundDiv (h : 0 < den) (hOdd : k % 2 = 1) (hMiddle : 2 * (k * den) + den ≤ 2 * num) :
    k < roundDiv num den := by
  have hDivision : num / den * den + num % den = num := Nat.div_add_mod' num den
  rcases div_mul_cases num den k with rfl | hPlace
  · rw [roundDiv, if_pos (by omega)]
    exact Nat.lt_succ_self _
  · rcases hPlace with hLess | hMore
    · have hStep : k + 1 ≤ num / den := by
        apply Nat.le_of_mul_le_mul_right _ h
        rwa [Nat.succ_mul]
      exact le_roundDiv h ((Nat.mul_le_mul_right den hStep).trans (Nat.div_mul_le_self num den))
    · have hRest : num % den < den := Nat.mod_lt num h
      omega

/-- A double is too small for the significands of a scale, or on its grid. An odd place on the grid
is the significand. -/
theorem size_cases (y : Binary64) (s : Nat) :
    (0 < s ∧ y.size < 2 ^ 52 * 2 ^ s) ∨
      ∃ k, y.size = k * 2 ^ s ∧ (k % 2 = 1 → y.significand % 2 = 1) := by
  have hPower : Nat.pow 2 y.scale = 2 ^ y.scale := rfl
  rw [size, hPower]
  rcases Nat.lt_or_ge y.scale s with hFine | hCoarse
  · left
    refine ⟨Nat.zero_lt_of_lt hFine, ?_⟩
    calc
      y.significand * 2 ^ y.scale < 2 ^ 53 * 2 ^ y.scale :=
        Nat.mul_lt_mul_of_pos_right y.significand_lt (Nat.two_pow_pos _)
      _ = 2 ^ 52 * 2 ^ (y.scale + 1) := by ring
      _ ≤ 2 ^ 52 * 2 ^ s := Nat.mul_le_mul_left _ (Nat.pow_le_pow_right (by decide) hFine)
  · right
    refine ⟨y.significand * 2 ^ (y.scale - s), ?_, fun hOdd => ?_⟩
    · rw [Nat.mul_assoc, ← Nat.pow_add, Nat.sub_add_cancel hCoarse]
    · exact Nat.odd_iff.mp (Nat.odd_mul.mp (Nat.odd_iff.mpr hOdd)).1

theorem significand_of_magnitude (hMagnitude : x.magnitude = s * 2 ^ 52 + r) :
    x.significand % 2 = r % 2 := by
  have hPower : Nat.pow 2 52 = 2 ^ 52 := rfl
  rw [significand, hMagnitude, hPower]
  split
  · omega
  · omega

/-- A quotient that does not become infinite, with the scale it is rounded to. -/
structure IsRatio (num den s : Nat) (x : Binary64) : Prop where
  positive : 0 < den
  rounds : RoundsTo (num * unit) den s (roundDiv (num * unit) (den * 2 ^ s))
  magnitude : x.magnitude = s * 2 ^ 52 + roundDiv (num * unit) (den * 2 ^ s)

theorem exists_isRatio (h : 0 < den) (hFinite : nearest num den < infinite) (negative : Bool) :
    ∃ s, IsRatio num den s (ofRatio negative num den) := by
  obtain ⟨s, hNearest, hRounded⟩ := nearest_spec num h
  refine ⟨s, h, hRounded, ?_⟩
  rw [magnitude_ofRatio, hNearest]
  rw [hNearest] at hFinite
  omega

namespace IsRatio

theorem size_eq (h : IsRatio num den s x) :
    x.size = roundDiv (num * unit) (den * 2 ^ s) * 2 ^ s :=
  size_of_magnitude h.magnitude h.rounds.isShort h.rounds.isNormal

/-- No double is nearer. Where another is as near, its significand is odd and this one is even. -/
theorem nearest_size (h : IsRatio num den s x) (y : Binary64) :
    gap (x.size * den) (num * unit) ≤ gap (y.size * den) (num * unit) ∧
      (gap (y.size * den) (num * unit) = gap (x.size * den) (num * unit) →
        y.size = x.size ∨ (x.significand % 2 = 0 ∧ y.significand % 2 = 1)) := by
  have hPositive : 0 < den * 2 ^ s := Nat.mul_pos h.positive (Nat.two_pow_pos s)
  have hGrid (k : Nat) : k * 2 ^ s * den = k * (den * 2 ^ s) := by ring
  have hParity : x.significand % 2 = roundDiv (num * unit) (den * 2 ^ s) % 2 :=
    significand_of_magnitude h.magnitude
  rw [h.size_eq, hGrid, hParity]
  rcases size_cases y s with ⟨hScaled, hSmall⟩ | ⟨k, hSize, hOdd⟩
  · -- What is too small is farther than the least significand of the scale.
    have hLarge : 2 ^ 52 * (den * 2 ^ s) ≤ num * unit := h.rounds.isLarge.resolve_left hScaled.ne'
    have hNear := (roundDiv_nearest (num * unit) (2 ^ 52) hPositive).1
    have hBelow : y.size * den < 2 ^ 52 * (den * 2 ^ s) := by
      rw [← hGrid]
      exact Nat.mul_lt_mul_of_pos_right hSmall h.positive
    have hStrict : gap (2 ^ 52 * (den * 2 ^ s)) (num * unit) < gap (y.size * den) (num * unit) :=
      gap_lt_gap hBelow hLarge
    exact ⟨(hNear.trans_lt hStrict).le, fun hSame => absurd hSame (hNear.trans_lt hStrict).ne'⟩
  · obtain ⟨hNear, hTie⟩ := roundDiv_nearest (num * unit) k hPositive
    rw [hSize, hGrid]
    exact ⟨hNear, fun hSame => (hTie hSame).imp (congrArg (· * 2 ^ s)) (.imp_right hOdd)⟩

/-- At most half a unit of the last place is lost, and so one part in `2 ^ 53`. -/
theorem gap_le (h : IsRatio num den s x) (hLarge : 2 ^ 52 * den ≤ num * unit) :
    gap (x.size * den) (num * unit) * 2 ^ 53 ≤ num * unit := by
  have hPositive : 0 < den * 2 ^ s := Nat.mul_pos h.positive (Nat.two_pow_pos s)
  have hGrid (k : Nat) : k * 2 ^ s * den = k * (den * 2 ^ s) := by ring
  have hUpper := two_mul_roundDiv_mul_le (num * unit) hPositive
  have hLower := le_two_mul_roundDiv_mul (num * unit) hPositive
  have hScaled : 2 ^ 52 * (den * 2 ^ s) ≤ num * unit := by
    rcases h.rounds.isLarge with rfl | hScaled
    · rw [Nat.pow_zero, Nat.mul_one]
      exact hLarge
    · exact hScaled
  rw [h.size_eq, hGrid]
  apply gap_mul_le hUpper hLower hScaled

end IsRatio

/-- From the middle between the greatest double and the power of two after it on, everything
becomes infinite. -/
theorem nearest_eq_infinite (h : 0 < den)
    (hBound : (2 ^ 54 - 1) * (den * 2 ^ topScale) ≤ 2 * (num * unit)) :
    nearest num den = infinite := by
  obtain ⟨s, hNearest, hRounded⟩ := nearest_spec num h
  have hPositive : 0 < den * 2 ^ s := Nat.mul_pos h (Nat.two_pow_pos s)
  suffices hMagnitude : infinite ≤ s * 2 ^ 52 + roundDiv (num * unit) (den * 2 ^ s) by
    rw [hNearest, Nat.min_eq_left hMagnitude]
  rw [infinite_eq]
  rcases Nat.lt_trichotomy s topScale with hSmall | rfl | hLarge
  · exfalso
    have hShort := Nat.mul_le_mul_right (den * 2 ^ s) hRounded.isShort
    have hRound := le_two_mul_roundDiv_mul (num * unit) hPositive
    have hScale : den * 2 ^ s * 2 ≤ den * 2 ^ topScale := by
      rw [Nat.mul_assoc, ← Nat.pow_succ]
      exact Nat.mul_le_mul_left den (Nat.pow_le_pow_right (by decide) hSmall)
    generalize den * 2 ^ topScale = top at hBound hScale
    generalize roundDiv (num * unit) (den * 2 ^ s) * (den * 2 ^ s) = rounded at hShort hRound
    generalize num * unit = number at hBound hRound
    omega
  · have hTop : 2 ^ 53 - 1 < roundDiv (num * unit) (den * 2 ^ topScale) := by
      apply lt_roundDiv hPositive (by decide)
      generalize den * 2 ^ topScale = top at hBound ⊢
      generalize num * unit = number at hBound ⊢
      omega
    omega
  · have hNormal : 2 ^ 52 ≤ roundDiv (num * unit) (den * 2 ^ s) :=
      hRounded.isNormal.resolve_left (Nat.ne_zero_of_lt hLarge)
    calc
      (topScale + 2) * 2 ^ 52 = (topScale + 1) * 2 ^ 52 + 2 ^ 52 := Nat.succ_mul _ _
      _ ≤ s * 2 ^ 52 + roundDiv (num * unit) (den * 2 ^ s) :=
        Nat.add_le_add (Nat.mul_le_mul_right _ hLarge) hNormal

end TableGateway.Binary64
