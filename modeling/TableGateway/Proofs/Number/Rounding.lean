import Mathlib.Tactic.Ring
import TableGateway.Number.Binary64

/-!
# Rounding

A quotient is rounded to a significand of at most 53 bits and a scale. What is rounded does not
become infinite below the middle between the greatest double and the next power of two, and an
integer grows by at most one part in `2 ^ 53`.
-/

namespace TableGateway.Binary64

variable {num den k s r m : Nat} {negative : Bool}

theorem two_mul_roundDiv_mul_le (num : Nat) (h : 0 < den) :
    2 * (roundDiv num den * den) ≤ 2 * num + den := by
  have hDivision : num / den * den + num % den = num := Nat.div_add_mod' num den
  have hRest : num % den < den := Nat.mod_lt num h
  rw [roundDiv]
  split
  · next hUp =>
    have hNext : (num / den + 1) * den = num / den * den + den := Nat.succ_mul _ _
    rcases hUp with hMore | ⟨hHalf, -⟩
    · omega
    · omega
  · omega

theorem le_roundDiv (h : 0 < den) (hLe : k * den ≤ num) : k ≤ roundDiv num den := by
  have hQuotient : k ≤ num / den := (Nat.le_div_iff_mul_le h).mpr hLe
  rw [roundDiv]
  split
  · exact Nat.le_succ_of_le hQuotient
  · exact hQuotient

theorem roundDiv_le (h : 0 < den) (hLe : num ≤ k * den) : roundDiv num den ≤ k := by
  have hRounded := two_mul_roundDiv_mul_le num h
  by_contra hMore
  have hNext : (k + 1) * den ≤ roundDiv num den * den :=
    Nat.mul_le_mul_right den (Nat.lt_of_not_le hMore)
  rw [Nat.succ_mul] at hNext
  omega

theorem roundDiv_lt (h : 0 < den) (hLt : 2 * num + den < 2 * (k * den)) :
    roundDiv num den < k := by
  have hRounded := two_mul_roundDiv_mul_le num h
  by_contra hMore
  have hProduct : k * den ≤ roundDiv num den * den :=
    Nat.mul_le_mul_right den (Nat.le_of_not_lt hMore)
  omega

/-- The significand `r` and the scale `s` to which `num / den` least subnormals are rounded. -/
structure RoundsTo (num den s r : Nat) : Prop where
  isShort : r ≤ 2 ^ 53
  isNormal : s = 0 ∨ 2 ^ 52 ≤ r
  isLarge : s = 0 ∨ 2 ^ 52 * (den * 2 ^ s) ≤ num
  isNear : 2 * (r * (den * 2 ^ s)) ≤ 2 * num + den * 2 ^ s

theorem nearest_spec (num : Nat) (h : 0 < den) :
    ∃ s, nearest num den =
        min infinite (s * 2 ^ 52 + roundDiv (num * unit) (den * 2 ^ s)) ∧
      RoundsTo (num * unit) den s (roundDiv (num * unit) (den * 2 ^ s)) := by
  generalize hShift : Nat.log2 (num * unit / den) - 52 = s
  have hPositive : 0 < den * 2 ^ s := Nat.mul_pos h (Nat.two_pow_pos s)
  have hQuotient : num * unit / den < 2 ^ 53 * 2 ^ s := by
    calc
      num * unit / den < 2 ^ (Nat.log2 (num * unit / den) + 1) := Nat.lt_log2_self
      _ ≤ 2 ^ (53 + s) := Nat.pow_le_pow_right (by decide) (by omega)
      _ = 2 ^ 53 * 2 ^ s := Nat.pow_add 2 53 s
  have hUpper : num * unit ≤ 2 ^ 53 * (den * 2 ^ s) := by
    have hLess := (Nat.div_lt_iff_lt_mul h).mp hQuotient
    calc
      num * unit ≤ 2 ^ 53 * 2 ^ s * den := hLess.le
      _ = 2 ^ 53 * (den * 2 ^ s) := by ring
  have hLower : s = 0 ∨ 2 ^ 52 * (den * 2 ^ s) ≤ num * unit := by
    rcases Nat.eq_zero_or_pos s with hZero | hScaled
    · exact .inl hZero
    · right
      have hLarge : num * unit / den ≠ 0 := by
        intro hNone
        rw [hNone, Nat.log2_zero] at hShift
        omega
      have hPower : 2 ^ (52 + s) ≤ num * unit / den := by
        have hSelf := Nat.log2_self_le hLarge
        have hExponent : Nat.log2 (num * unit / den) = 52 + s := by omega
        rwa [hExponent] at hSelf
      calc
        2 ^ 52 * (den * 2 ^ s) = 2 ^ (52 + s) * den := by rw [Nat.pow_add]; ring
        _ ≤ num * unit := (Nat.le_div_iff_mul_le h).mp hPower
  refine ⟨s, ?_, roundDiv_le hPositive hUpper, ?_, hLower, two_mul_roundDiv_mul_le _ hPositive⟩
  · rw [nearest, hShift]
    rfl
  · exact hLower.imp_right (le_roundDiv hPositive)

theorem unit_pos : 0 < unit := by
  decide +kernel

theorem magnitude_ofMagnitude (h : m < 2 ^ 63) : (ofMagnitude negative m).magnitude = m := by
  have hPower : Nat.pow 2 63 = 2 ^ 63 := rfl
  rw [magnitude, ofMagnitude, hPower]
  cases negative with
  | false =>
    rw [if_neg (by decide), UInt64.toNat_ofNat']
    omega
  | true =>
    rw [if_pos rfl, UInt64.toNat_ofNat']
    omega

/-- The scale of the greatest finite doubles. -/
def topScale : Nat := 2045

theorem infinite_eq : infinite = (topScale + 2) * 2 ^ 52 := rfl

theorem magnitude_ofRatio (num den : Nat) :
    (ofRatio negative num den).magnitude = nearest num den := by
  apply magnitude_ofMagnitude
  have hBound : nearest num den ≤ infinite := Nat.min_le_left _ _
  rw [infinite_eq, topScale] at hBound
  omega

theorem size_of_magnitude {x : Binary64} (hMagnitude : x.magnitude = s * 2 ^ 52 + r)
    (hShort : r ≤ 2 ^ 53) (hNormal : s = 0 ∨ 2 ^ 52 ≤ r) : x.size = r * 2 ^ s := by
  have hPower : Nat.pow 2 52 = 2 ^ 52 := rfl
  have hScale : Nat.pow 2 x.scale = 2 ^ x.scale := rfl
  rw [size, hScale, significand, scale, hMagnitude, hPower]
  rcases Nat.lt_or_ge r (2 ^ 52) with hSmall | hLarge
  · have hZero : s = 0 := hNormal.resolve_right (by omega)
    have hNone : r / 2 ^ 52 = 0 := Nat.div_eq_of_lt hSmall
    rw [hZero, Nat.zero_mul, Nat.zero_add, if_pos hSmall, hNone]
  · rw [if_neg (by omega)]
    rcases Nat.lt_or_ge r (2 ^ 53) with hBelow | hTop
    · have hRest : (s * 2 ^ 52 + r) % 2 ^ 52 + 2 ^ 52 = r := by omega
      have hQuotient : (s * 2 ^ 52 + r) / 2 ^ 52 - 1 = s := by omega
      rw [hRest, hQuotient]
    · have hExact : r = 2 ^ 53 := Nat.le_antisymm hShort hTop
      have hRest : (s * 2 ^ 52 + r) % 2 ^ 52 + 2 ^ 52 = 2 ^ 52 := by omega
      have hQuotient : (s * 2 ^ 52 + r) / 2 ^ 52 - 1 = s + 1 := by omega
      rw [hRest, hQuotient, hExact, Nat.pow_succ]
      ring

/-- Below the middle between the greatest double and the power of two after it nothing becomes
infinite. -/
theorem nearest_lt_infinite (h : 0 < den)
    (hBound : 2 * (num * unit) < (2 ^ 54 - 1) * (den * 2 ^ topScale)) :
    nearest num den < infinite := by
  obtain ⟨s, hNearest, hRounded⟩ := nearest_spec num h
  have hShort := hRounded.isShort
  suffices hMagnitude : s * 2 ^ 52 + roundDiv (num * unit) (den * 2 ^ s) < infinite by
    rw [hNearest, Nat.min_eq_right hMagnitude.le]
    exact hMagnitude
  rw [infinite_eq]
  rcases Nat.lt_trichotomy s topScale with hSmall | hTop | hLarge
  · omega
  · have hStrict : roundDiv (num * unit) (den * 2 ^ s) < 2 ^ 53 := by
      apply roundDiv_lt (Nat.mul_pos h (Nat.two_pow_pos s))
      rw [← hTop] at hBound
      generalize den * 2 ^ s = d at hBound ⊢
      omega
    omega
  · exfalso
    have hNumber : 2 ^ 52 * (den * 2 ^ s) ≤ num * unit := hRounded.isLarge.resolve_left (by omega)
    obtain ⟨above, rfl⟩ := Nat.exists_eq_add_of_lt hLarge
    have hScale : den * 2 ^ topScale * 2 ≤ den * 2 ^ (topScale + above + 1) := by
      rw [Nat.mul_assoc, ← Nat.pow_succ]
      exact Nat.mul_le_mul_left den (Nat.pow_le_pow_right (by decide) (by omega))
    generalize den * 2 ^ topScale = d at hBound hScale
    omega

/-- An integer that is rounded grows by at most one part in `2 ^ 53`. -/
theorem size_ofRatio_one_le (hFinite : nearest num 1 < infinite) :
    (ofRatio negative num 1).size * 2 ^ 53 ≤ num * unit * (2 ^ 53 + 1) := by
  obtain ⟨s, hNearest, hRounded⟩ := nearest_spec num Nat.one_pos
  have hMagnitude : (ofRatio negative num 1).magnitude =
      s * 2 ^ 52 + roundDiv (num * unit) (1 * 2 ^ s) := by
    rw [magnitude_ofRatio, hNearest]
    rw [hNearest] at hFinite
    omega
  rw [size_of_magnitude hMagnitude hRounded.isShort hRounded.isNormal]
  have hNear := hRounded.isNear
  have hLarge := hRounded.isLarge
  rcases hLarge with rfl | hLarge
  · -- Nothing is cut off at the least scale.
    have hExact : roundDiv (num * unit) (1 * 2 ^ 0) * 2 ^ 0 ≤ num * unit := by
      rw [Nat.pow_zero, Nat.mul_one, Nat.mul_one]
      exact roundDiv_le Nat.one_pos (Nat.mul_one _).ge
    calc
      roundDiv (num * unit) (1 * 2 ^ 0) * 2 ^ 0 * 2 ^ 53 ≤ num * unit * 2 ^ 53 :=
        Nat.mul_le_mul_right _ hExact
      _ ≤ num * unit * (2 ^ 53 + 1) := Nat.mul_le_mul_left _ (Nat.le_succ _)
  · rw [Nat.one_mul] at hNear hLarge ⊢
    generalize roundDiv (num * unit) (2 ^ s) * 2 ^ s = size at hNear ⊢
    generalize num * unit = exact at hNear hLarge ⊢
    omega

end TableGateway.Binary64
