import Mathlib.Algebra.Order.Field.Basic
import Mathlib.Data.Rat.Cast.Order
import Mathlib.Tactic.Linarith
import Mathlib.Tactic.NormNum
import Mathlib.Tactic.Positivity
import TableGateway.Proofs.Number.Digits
import TableGateway.Proofs.Number.Nearest

/-!
# Decimals as doubles

A decimal is rounded to the double that is nearest to it, whatever its exponent. Decimals of at most
fifteen digits lie so far apart that no two of them are rounded to the same double, unless they are
beyond the normal doubles.
-/

namespace TableGateway.Binary64

open Numeral (ofDigits ofDigits_lt ofDigits_toDigits isDigit_of_mem_toDigits pow_length_toDigits_le)

variable {num den m : Nat} {negative : Bool} {x y : Binary64} {q q' : ℚ} {e : Int}

def signed (negative : Bool) (q : ℚ) : ℚ := if negative then -q else q

/-- The number that a finite double is. -/
def toRat (x : Binary64) : ℚ := signed x.isNegative (x.size / unit)

theorem abs_signed_sub (negative : Bool) (a b : ℚ) :
    |signed negative a - signed negative b| = |a - b| := by
  cases negative with
  | false => rfl
  | true =>
    rw [signed, signed, if_pos rfl, if_pos rfl, neg_sub_neg, abs_sub_comm]

theorem abs_signed (negative : Bool) (q : ℚ) : |signed negative q| = |q| := by
  cases negative with
  | false => rfl
  | true => exact abs_neg q

theorem decide_signed_lt_zero (h : 0 < q) : decide (signed negative q < 0) = negative := by
  cases negative with
  | false => exact decide_eq_false h.not_gt
  | true => exact decide_eq_true (neg_neg_of_pos h)

theorem pos_of_signed_ne_zero (h : 0 ≤ q) (hSome : signed negative q ≠ 0) : 0 < q := by
  refine h.lt_of_ne fun hZero => hSome ?_
  rw [← abs_eq_zero, abs_signed, ← hZero, abs_zero]

theorem unit_pos_rat : (0 : ℚ) < unit := Nat.cast_pos.mpr unit_pos

theorem abs_toRat (x : Binary64) : |x.toRat| = x.size / unit := by
  rw [toRat, abs_signed]
  exact abs_of_nonneg (div_nonneg (Nat.cast_nonneg _) unit_pos_rat.le)

theorem toRat_eq_zero (h : x.size = 0) : x.toRat = 0 := by
  rw [← abs_eq_zero, abs_toRat, h, Nat.cast_zero, zero_div]

/-- The double has the sign of the number and is as near to it as any, with an even significand
where another one is as near. -/
structure IsNearest (q : ℚ) (x : Binary64) : Prop where
  isFinite : x.isFinite = true
  isNegative : q ≠ 0 → x.isNegative = decide (q < 0)
  near : ∀ y : Binary64, y.isFinite = true → |x.toRat - q| ≤ |y.toRat - q|
  even : ∀ y : Binary64, y.isFinite = true → y.toRat ≠ x.toRat →
    |y.toRat - q| = |x.toRat - q| → x.significand % 2 = 0

/-- The middle between the greatest double and the power of two after it. -/
def halfway : Nat := (2 ^ 54 - 1) * 2 ^ 970

/-- The double that a number becomes. -/
inductive Rounds (q : ℚ) : Binary64 → Prop
  | finite {x : Binary64} (hSmall : |q| < halfway) (hNearest : IsNearest q x) : Rounds q x
  | infinite (hLarge : halfway ≤ |q|) : Rounds q (infinity (q < 0))

theorem abs_div_sub_div (size num : Nat) (h : 0 < den) :
    |(size / unit : ℚ) - num / den| = gap (size * den) (num * unit) / (unit * den) := by
  have hDen : (0 : ℚ) < den := Nat.cast_pos.mpr h
  have hCommon : (size / unit : ℚ) - num / den =
      ((size * den : Nat) - (num * unit : Nat) : Int) / (unit * den) := by
    rw [div_sub_div _ _ unit_pos_rat.ne' hDen.ne']
    push_cast
    rw [mul_comm (num : ℚ)]
  have hGap : |(((size * den : Nat) - (num * unit : Nat) : Int) : ℚ)| =
      (gap (size * den) (num * unit) : Nat) := by
    rw [gap, Nat.cast_natAbs, Int.cast_abs]
  rw [hCommon, abs_div, hGap, abs_of_pos (mul_pos unit_pos_rat hDen)]

theorem abs_toRat_ofRatio_sub (h : 0 < den) :
    |(ofRatio negative num den).toRat - signed negative (num / den)| =
      gap ((ofRatio negative num den).size * den) (num * unit) / (unit * den) := by
  rw [toRat, isNegative_ofRatio, abs_signed_sub, abs_div_sub_div _ _ h]

theorem abs_signed_div (negative : Bool) (num den : Nat) :
    |signed negative (num / den)| = (num / den : ℚ) := by
  rw [abs_signed]
  exact abs_of_nonneg (div_nonneg (Nat.cast_nonneg _) (Nat.cast_nonneg _))

theorem gap_div_le_abs_sub (negative : Bool) (num : Nat) (y : Binary64) (h : 0 < den) :
    (gap (y.size * den) (num * unit) / (unit * den) : ℚ) ≤
      |y.toRat - signed negative (num / den)| := by
  rw [← abs_div_sub_div _ _ h]
  calc
    |(y.size / unit : ℚ) - num / den| = |(|y.toRat| - |signed negative (num / den)|)| := by
      rw [abs_toRat, abs_signed_div]
    _ ≤ |y.toRat - signed negative (num / den)| := abs_abs_sub_abs_le _ _

/-- A double that is as near as one of the same size is equal to it. -/
theorem toRat_eq_of_size (hZero : q = 0 → x.toRat = 0) (hSize : y.size = x.size)
    (hSame : |y.toRat - q| = |x.toRat - q|) : y.toRat = x.toRat := by
  have hAbs : |y.toRat| = |x.toRat| := by rw [abs_toRat, abs_toRat, hSize]
  rcases abs_eq_abs.mp hAbs with hEqual | hOpposite
  · exact hEqual
  · rw [hOpposite] at hSame ⊢
    rcases abs_eq_abs.mp hSame with hLeft | hRight
    · exact sub_left_injective hLeft
    · have hNone : q = 0 := by linarith
      rw [hZero hNone, neg_zero]

theorem abs_toRat_ofRatio_sub_le (negative : Bool) (h : 0 < den)
    (hFinite : nearest num den < infinite) (y : Binary64) :
    |(ofRatio negative num den).toRat - signed negative (num / den)| ≤
      |y.toRat - signed negative (num / den)| := by
  obtain ⟨s, hRatio⟩ := exists_isRatio h hFinite negative
  have hCommon : (0 : ℚ) ≤ unit * den := mul_nonneg unit_pos_rat.le (Nat.cast_nonneg _)
  calc
    |(ofRatio negative num den).toRat - signed negative (num / den)|
      = gap ((ofRatio negative num den).size * den) (num * unit) / (unit * den) :=
        abs_toRat_ofRatio_sub h
    _ ≤ gap (y.size * den) (num * unit) / (unit * den) :=
        div_le_div_of_nonneg_right (Nat.cast_le.mpr (hRatio.nearest_size y).1) hCommon
    _ ≤ |y.toRat - signed negative (num / den)| := gap_div_le_abs_sub negative num y h

theorem toRat_zero : (ofMagnitude negative 0).toRat = 0 := by
  apply toRat_eq_zero
  cases negative with
  | false => decide
  | true => decide

/-- Another double that is as near as the rounded one has an odd significand, the rounded one an
even one. -/
theorem parity_of_tie_ofRatio (h : 0 < den) (hFinite : nearest num den < infinite)
    (hOther : y.toRat ≠ (ofRatio negative num den).toRat)
    (hTie : |y.toRat - signed negative (num / den)| =
      |(ofRatio negative num den).toRat - signed negative (num / den)|) :
    (ofRatio negative num den).significand % 2 = 0 ∧ y.significand % 2 = 1 := by
  obtain ⟨s, hRatio⟩ := exists_isRatio h hFinite negative
  have hCommon : (0 : ℚ) < unit * den := mul_pos unit_pos_rat (Nat.cast_pos.mpr h)
  have hFar := gap_div_le_abs_sub negative num y h
  rw [hTie, abs_toRat_ofRatio_sub h, div_le_div_iff_of_pos_right hCommon, Nat.cast_le] at hFar
  have hGaps := Nat.le_antisymm hFar (hRatio.nearest_size y).1
  refine ((hRatio.nearest_size y).2 hGaps).resolve_left fun hSize => hOther ?_
  refine toRat_eq_of_size (fun hZero => ?_) hSize hTie
  have hNear := abs_toRat_ofRatio_sub_le negative h hFinite (ofMagnitude false 0)
  rw [hZero, toRat_zero, sub_zero, sub_zero, abs_zero] at hNear
  exact abs_nonpos_iff.mp hNear

theorem isNearest_ofRatio (negative : Bool) (h : 0 < den) (hFinite : nearest num den < infinite) :
    IsNearest (signed negative (num / den)) (ofRatio negative num den) := by
  refine ⟨?_, fun hSome => ?_, fun y _ => abs_toRat_ofRatio_sub_le negative h hFinite y,
    fun _ _ hOther hTie => (parity_of_tie_ofRatio h hFinite hOther hTie).1⟩
  · rw [isFinite, magnitude_ofRatio]
    exact decide_eq_true hFinite
  · have hPositive := pos_of_signed_ne_zero (div_nonneg (Nat.cast_nonneg _) (Nat.cast_nonneg _))
      hSome
    rw [isNegative_ofRatio, decide_signed_lt_zero hPositive]

/-- The rounded quotient is the only double that is nearest in this sense. -/
theorem IsNearest.toRat_eq_ofRatio (hNearest : IsNearest (signed negative (num / den)) x)
    (h : 0 < den) (hFinite : nearest num den < infinite) :
    x.toRat = (ofRatio negative num den).toRat := by
  by_contra hOther
  have hRatio := isNearest_ofRatio negative h hFinite
  have hTie := le_antisymm (hNearest.near _ hRatio.isFinite) (hRatio.near _ hNearest.isFinite)
  have hEven := hNearest.even _ hRatio.isFinite (Ne.symm hOther) hTie.symm
  have hOdd := (parity_of_tie_ofRatio h hFinite hOther hTie).2
  omega

/-- How large the two constants are. -/
theorem halfway_unit_size : 10 ^ 200 < halfway ∧ halfway ≤ 10 ^ 330 ∧ 2 * unit ≤ 10 ^ 331 ∧
    halfway * (2 * unit) = (2 ^ 54 - 1) * 2 ^ topScale := by
  decide +kernel

theorem halfway_pos : 0 < halfway := Nat.zero_lt_of_lt halfway_unit_size.1

theorem halfway_mul : halfway * (2 * unit) = (2 ^ 54 - 1) * 2 ^ topScale := halfway_unit_size.2.2.2

theorem div_lt_halfway_iff (h : 0 < den) :
    (num / den : ℚ) < halfway ↔ 2 * (num * unit) < (2 ^ 54 - 1) * (den * 2 ^ topScale) := by
  have hScale : (2 ^ 54 - 1) * (den * 2 ^ topScale) = halfway * den * (2 * unit) := by
    rw [Nat.mul_right_comm halfway, halfway_mul]
    ring
  have hNumber : 2 * (num * unit) = num * (2 * unit) := by ring
  have hUnits : 0 < 2 * unit := Nat.mul_pos Nat.two_pos unit_pos
  rw [div_lt_iff₀ (Nat.cast_pos.mpr h), ← Nat.cast_mul, Nat.cast_lt, hScale, hNumber,
    Nat.mul_lt_mul_right hUnits]

theorem rounds_infinite (hLarge : (halfway : ℚ) ≤ q) :
    Rounds (signed negative q) (infinity negative) := by
  have hPositive : 0 < q := (Nat.cast_pos.mpr halfway_pos).trans_le hLarge
  have hAbs : (halfway : ℚ) ≤ |signed negative q| := by rwa [abs_signed, abs_of_pos hPositive]
  have hRounds := Rounds.infinite hAbs
  rwa [decide_signed_lt_zero hPositive] at hRounds

theorem rounds_ofRatio (h : 0 < den) :
    Rounds (signed negative (num / den)) (ofRatio negative num den) := by
  by_cases hSmall : (num / den : ℚ) < halfway
  · apply Rounds.finite
    · rwa [abs_signed_div]
    · exact isNearest_ofRatio negative h (nearest_lt_infinite h ((div_lt_halfway_iff h).mp hSmall))
  · have hLarge : nearest num den = infinite :=
      nearest_eq_infinite h (Nat.le_of_not_lt (mt (div_lt_halfway_iff h).mpr hSmall))
    rw [ofRatio, hLarge]
    exact rounds_infinite (le_of_not_gt hSmall)

theorem signed_natAbs_div (q : ℚ) : signed (q < 0) (q.num.natAbs / q.den) = q := by
  have hAbs : (q.num.natAbs / q.den : ℚ) = |q| := by
    rw [Nat.cast_natAbs, Int.cast_abs, ← Nat.abs_cast q.den, ← abs_div, Rat.num_div_den]
  rw [hAbs, signed]
  simp only [decide_eq_true_eq]
  split
  · next hNegative => rw [abs_of_neg hNegative, neg_neg]
  · next hPositive => exact abs_of_nonneg (not_lt.mp hPositive)

theorem abs_eq_natAbs_div (q : ℚ) : |q| = (q.num.natAbs / q.den : ℚ) := by
  rw [← signed_natAbs_div q, abs_signed_div, signed_natAbs_div]

theorem nearest_lt_infinite_of_abs (h : |q| < halfway) :
    nearest q.num.natAbs q.den < infinite := by
  rw [abs_eq_natAbs_div] at h
  exact nearest_lt_infinite q.den_pos ((div_lt_halfway_iff q.den_pos).mp h)

theorem IsNearest.toRat_unique (h : IsNearest q x) (h' : IsNearest q y) (hSmall : |q| < halfway) :
    x.toRat = y.toRat := by
  have hFinite := nearest_lt_infinite_of_abs hSmall
  rw [← signed_natAbs_div q] at h h'
  rw [h.toRat_eq_ofRatio q.den_pos hFinite, h'.toRat_eq_ofRatio q.den_pos hFinite]

/-- A number is rounded to one value only. -/
theorem Rounds.toRat_unique (h : Rounds q x) (h' : Rounds q y) : x.toRat = y.toRat := by
  cases h with
  | finite hSmall hNearest =>
    cases h' with
    | finite _ hNearest' => exact hNearest.toRat_unique hNearest' hSmall
    | infinite hLarge => exact absurd hSmall hLarge.not_gt
  | infinite hLarge =>
    cases h' with
    | finite hSmall _ => exact absurd hSmall hLarge.not_gt
    | infinite _ => rfl

theorem lt_pow_length_toDigits (m : Nat) : m < 10 ^ (Nat.toDigits 10 m).length := by
  have hBound := ofDigits_lt (Nat.toDigits 10 m) isDigit_of_mem_toDigits
  rwa [ofDigits_toDigits] at hBound

/-- What is at most half of the least double is rounded to zero. -/
theorem rounds_zero (h : 0 ≤ q) (hTiny : q * (2 * unit : Nat) ≤ 1) :
    Rounds (signed negative q) (ofMagnitude negative 0) := by
  have hAbs : |signed negative q| = q := by rw [abs_signed, abs_of_nonneg h]
  have hUnits : (0 : ℚ) < (2 * unit : Nat) :=
    Nat.cast_pos.mpr (Nat.mul_pos Nat.two_pos unit_pos)
  apply Rounds.finite
  · have hOne : 1 < halfway * (2 * unit) := by
      have hUnit := unit_pos
      calc
        1 < 2 * unit := by omega
        _ ≤ halfway * (2 * unit) := Nat.le_mul_of_pos_left _ halfway_pos
    rw [hAbs]
    apply lt_of_mul_lt_mul_right _ hUnits.le
    calc
      q * (2 * unit : Nat) ≤ 1 := hTiny
      _ < (halfway * (2 * unit) : Nat) := Nat.one_lt_cast.mpr hOne
      _ = halfway * (2 * unit : Nat) := Nat.cast_mul _ _
  · refine ⟨?_, fun hSome => ?_, fun y _ => ?_, fun _ _ _ _ => ?_⟩
    · cases negative with
      | false => decide
      | true => decide
    · rw [decide_signed_lt_zero (pos_of_signed_ne_zero h hSome)]
      exact isNegative_ofMagnitude (by decide)
    · rw [toRat_zero, zero_sub, abs_neg]
      by_cases hZero : y.size = 0
      · rw [toRat_eq_zero hZero, zero_sub, abs_neg]
      · have hSome : (1 : ℚ) ≤ y.size := Nat.one_le_cast.mpr (Nat.pos_of_ne_zero hZero)
        have hFar : 2 * q ≤ |y.toRat| := by
          rw [abs_toRat, le_div_iff₀ unit_pos_rat]
          calc
            2 * q * unit = q * (2 * unit : Nat) := by
              push_cast
              ring
            _ ≤ y.size := hTiny.trans hSome
        have hGap := abs_sub_abs_le_abs_sub y.toRat (signed negative q)
        rw [hAbs] at hGap ⊢
        linarith
    · cases negative with
      | false => decide
      | true => decide

theorem mul_zpow_lt (m : Nat) (e : Int) :
    (m * 10 ^ e : ℚ) < 10 ^ ((Nat.toDigits 10 m).length + e : Int) := by
  rw [zpow_add₀ (by decide), zpow_natCast]
  apply mul_lt_mul_of_pos_right _ (zpow_pos (by decide) e)
  exact_mod_cast lt_pow_length_toDigits m

theorem zpow_le_mul_zpow (hm : m ≠ 0) (e : Int) :
    (10 ^ ((Nat.toDigits 10 m).length + e - 1 : Int) : ℚ) ≤ m * 10 ^ e := by
  have hLength : 0 < (Nat.toDigits 10 m).length := Nat.length_toDigits_pos
  have hExponent : ((Nat.toDigits 10 m).length + e - 1 : Int) =
      ((Nat.toDigits 10 m).length - 1 : Nat) + e := by omega
  rw [hExponent, zpow_add₀ (by decide), zpow_natCast]
  apply mul_le_mul_of_nonneg_right _ (zpow_nonneg (by decide) e)
  exact_mod_cast pow_length_toDigits_le hm

/-- Whatever its digits and its exponent are, a decimal is rounded as a whole. -/
theorem rounds_ofDecimal (negative : Bool) (m : Nat) (e : Int) :
    Rounds (signed negative (m * 10 ^ e)) (ofDecimal negative m e) := by
  have hPositive : (0 : ℚ) ≤ m * 10 ^ e :=
    mul_nonneg (Nat.cast_nonneg m) (zpow_nonneg (by decide) e)
  rw [ofDecimal]
  split
  · next hTiny =>
    apply rounds_zero hPositive
    rcases hTiny with rfl | hShort
    · rw [Nat.cast_zero, zero_mul, zero_mul]
      exact zero_le_one
    · have hUnits := halfway_unit_size.2.2.1
      calc
        m * 10 ^ e * ((2 * unit : Nat) : ℚ) ≤ 10 ^ (-331 : Int) * ((10 ^ 331 : Nat) : ℚ) := by
          apply mul_le_mul _ (Nat.cast_le.mpr hUnits) (Nat.cast_nonneg _)
            (zpow_nonneg (by decide) _)
          exact (mul_zpow_lt m e).le.trans (zpow_le_zpow_right₀ (by decide) (by omega))
        _ = 1 := by
          rw [Nat.cast_pow, Nat.cast_ofNat, ← zpow_natCast, ← zpow_add₀ (by decide)]
          rfl
  · next hSome =>
    have hm : m ≠ 0 := fun hZero => hSome (.inl hZero)
    split
    · next hLong =>
      have hTop := halfway_unit_size.2.1
      apply rounds_infinite
      calc
        (halfway : ℚ) ≤ (10 ^ 330 : Nat) := Nat.cast_le.mpr hTop
        _ = 10 ^ (330 : Int) := by
          rw [Nat.cast_pow, Nat.cast_ofNat]
          rfl
        _ ≤ 10 ^ ((Nat.toDigits 10 m).length + e - 1 : Int) :=
          zpow_le_zpow_right₀ (by decide) (by omega)
        _ ≤ m * 10 ^ e := zpow_le_mul_zpow hm e
    · have hPower (n : Nat) : Nat.pow 10 n = 10 ^ n := rfl
      rw [hPower, hPower]
      split
      · next hWhole =>
        obtain ⟨n, rfl⟩ := Int.eq_ofNat_of_zero_le hWhole
        have hNumber : (m * 10 ^ (n : Int) : ℚ) = (m * 10 ^ n : Nat) / (1 : Nat) := by
          rw [Nat.cast_one, div_one, zpow_natCast]
          push_cast
          rfl
        rw [hNumber, Int.toNat_natCast]
        exact rounds_ofRatio Nat.one_pos
      · next hFraction =>
        obtain ⟨n, rfl⟩ : ∃ n : Nat, e = -n := ⟨(-e).toNat, by omega⟩
        have hNumber : (m * 10 ^ (-n : Int) : ℚ) = m / (10 ^ n : Nat) := by
          rw [zpow_neg, zpow_natCast, ← div_eq_mul_inv]
          push_cast
          rfl
        rw [hNumber, Int.neg_neg, Int.toNat_natCast]
        exact rounds_ofRatio (Nat.pow_pos (by decide))

/-- A decimal of at most fifteen digits. -/
def IsShort (q : ℚ) : Prop := ∃ m e : Int, |m| < 10 ^ 15 ∧ q = m * 10 ^ e

/-- How many of the least normal double make one. -/
def normalUnit : Nat := 2 ^ 1022

/-- The number is zero or among the normal doubles. -/
def IsNormal (q : ℚ) : Prop := q = 0 ∨ (1 / normalUnit ≤ |q| ∧ |q| < halfway)

theorem unit_eq : unit = 2 ^ 52 * normalUnit := by
  decide +kernel

theorem normalUnit_pos : 0 < normalUnit :=
  Nat.pos_of_mul_pos_left (unit_eq ▸ unit_pos)

theorem isNormal_of_one_le (hLarge : 1 ≤ |q|) (hSmall : |q| ≤ 10 ^ 200) : IsNormal q := by
  right
  constructor
  · calc
      1 / (normalUnit : ℚ) ≤ 1 := div_le_one_of_le₀ (Nat.one_le_cast.mpr normalUnit_pos)
        (Nat.cast_nonneg _)
      _ ≤ |q| := hLarge
  · have hTop := halfway_unit_size.1
    calc
      |q| ≤ (10 ^ 200 : Nat) := by rwa [Nat.cast_pow, Nat.cast_ofNat]
      _ < halfway := Nat.cast_lt.mpr hTop

theorem abs_toRat_ofRatio_sub_mul_le (negative : Bool) (h : 0 < den)
    (hFinite : nearest num den < infinite) (hLarge : 1 / normalUnit ≤ (num / den : ℚ)) :
    |(ofRatio negative num den).toRat - signed negative (num / den)| * 2 ^ 53 ≤
      (num / den : ℚ) := by
  have hDen : (0 : ℚ) < den := Nat.cast_pos.mpr h
  have hCommon : (0 : ℚ) < unit * den := mul_pos unit_pos_rat hDen
  have hNumber : 2 ^ 52 * den ≤ num * unit := by
    rw [div_le_div_iff₀ (Nat.cast_pos.mpr normalUnit_pos) hDen, one_mul, ← Nat.cast_mul,
      Nat.cast_le] at hLarge
    rw [unit_eq, Nat.mul_left_comm]
    exact Nat.mul_le_mul_left _ hLarge
  obtain ⟨s, hRatio⟩ := exists_isRatio h hFinite negative
  have hGap : (gap ((ofRatio negative num den).size * den) (num * unit) * 2 ^ 53 : ℚ) ≤
      num * unit := by
    exact_mod_cast hRatio.gap_le hNumber
  calc
    |(ofRatio negative num den).toRat - signed negative (num / den)| * 2 ^ 53
      = (gap ((ofRatio negative num den).size * den) (num * unit) * 2 ^ 53 : ℚ) /
          (unit * den) := by
        rw [abs_toRat_ofRatio_sub h, div_mul_eq_mul_div]
    _ ≤ (num * unit / (unit * den) : ℚ) := div_le_div_of_nonneg_right hGap hCommon.le
    _ = num / den := by rw [mul_comm (num : ℚ), mul_div_mul_left _ _ unit_pos_rat.ne']

/-- Rounding moves a normal number by at most one part in `2 ^ 53`. -/
theorem IsNearest.abs_sub_mul_le (h : IsNearest q x) (hNormal : IsNormal q) :
    |x.toRat - q| * 2 ^ 53 ≤ |q| := by
  rcases hNormal with rfl | ⟨hLarge, hSmall⟩
  · have hNear := h.near (ofMagnitude false 0) (by decide)
    rw [toRat_zero, sub_zero, sub_zero, abs_zero] at hNear
    rw [abs_nonpos_iff.mp hNear, sub_zero, abs_zero, zero_mul]
  · -- The quotient of the number itself is rounded to a double that is this near.
    have hDen : 0 < q.den := q.den_pos
    have hFinite := nearest_lt_infinite_of_abs hSmall
    rw [abs_eq_natAbs_div q] at hLarge ⊢
    have hClose := abs_toRat_ofRatio_sub_mul_le (q < 0) hDen hFinite hLarge
    rw [signed_natAbs_div] at hClose
    have hNear := h.near _ (isNearest_ofRatio (q < 0) hDen hFinite).isFinite
    exact (mul_le_mul_of_nonneg_right hNear (by positivity)).trans hClose

/-- A short number is far from any other integer, measured by their sizes. -/
theorem abs_add_abs_lt_of_short {a b : Int} (hShort : |a| < 10 ^ 15) (hOther : a ≠ b) :
    |a| + |b| < 2 ^ 53 * |a - b| := by
  rw [Int.abs_eq_natAbs] at *
  rw [Int.abs_eq_natAbs, Int.abs_eq_natAbs]
  omega

theorem IsShort.abs_add_abs_lt_of_le {m m' e e' : Int} (hShort : |m| < 10 ^ 15) (hLe : e ≤ e')
    (hOther : (m * 10 ^ e : ℚ) ≠ m' * 10 ^ e') :
    |(m * 10 ^ e : ℚ)| + |(m' * 10 ^ e' : ℚ)| < 2 ^ 53 * |(m * 10 ^ e : ℚ) - m' * 10 ^ e'| := by
  have hPower : (0 : ℚ) < 10 ^ e := zpow_pos (by decide) e
  -- Both are multiples of the lesser power of ten.
  obtain ⟨k, hScaled⟩ : ∃ k : Int, (m' * 10 ^ e' : ℚ) = k * 10 ^ e := by
    obtain ⟨n, rfl⟩ := Int.le.dest hLe
    refine ⟨m' * 10 ^ n, ?_⟩
    rw [zpow_add₀ (by decide), zpow_natCast]
    push_cast
    ring
  rw [hScaled] at hOther ⊢
  have hIntegers : m ≠ k := fun hSame => hOther (by rw [hSame])
  have hFar : ((|m| + |k| : Int) : ℚ) < (2 ^ 53 * |m - k| : Int) :=
    Int.cast_lt.mpr (abs_add_abs_lt_of_short hShort hIntegers)
  calc
    |(m * 10 ^ e : ℚ)| + |(k * 10 ^ e : ℚ)| = (|m| + |k| : Int) * 10 ^ e := by
      rw [abs_mul, abs_mul, abs_of_pos hPower, ← add_mul]
      push_cast
      rfl
    _ < (2 ^ 53 * |m - k| : Int) * 10 ^ e := mul_lt_mul_of_pos_right hFar hPower
    _ = 2 ^ 53 * |(m * 10 ^ e : ℚ) - k * 10 ^ e| := by
      rw [← sub_mul, abs_mul, abs_of_pos hPower, ← mul_assoc]
      push_cast
      norm_num

theorem IsShort.abs_add_abs_lt (h : IsShort q) (h' : IsShort q') (hOther : q ≠ q') :
    |q| + |q'| < 2 ^ 53 * |q - q'| := by
  obtain ⟨m, e, hShort, rfl⟩ := h
  obtain ⟨m', e', hShort', rfl⟩ := h'
  rcases le_total e e' with hLe | hGe
  · exact abs_add_abs_lt_of_le hShort hLe hOther
  · rw [add_comm, abs_sub_comm]
    exact abs_add_abs_lt_of_le hShort' hGe hOther.symm

theorem Rounds.isNearest (h : Rounds q x) (hNormal : IsNormal q) : IsNearest q x := by
  cases h with
  | finite _ hNearest => exact hNearest
  | infinite hLarge =>
    rcases hNormal with rfl | ⟨-, hSmall⟩
    · rw [abs_zero] at hLarge
      exact absurd (Nat.cast_pos.mpr halfway_pos) hLarge.not_gt
    · exact absurd hSmall hLarge.not_gt

/-- No two short decimals among the normal doubles are rounded to the same number. -/
theorem Rounds.toRat_ne (h : Rounds q x) (h' : Rounds q' y) (hShort : IsShort q)
    (hShort' : IsShort q') (hNormal : IsNormal q) (hNormal' : IsNormal q') (hOther : q ≠ q') :
    x.toRat ≠ y.toRat := by
  intro hSame
  have hLeft := (h.isNearest hNormal).abs_sub_mul_le hNormal
  have hRight := (h'.isNearest hNormal').abs_sub_mul_le hNormal'
  have hApart := hShort.abs_add_abs_lt hShort' hOther
  have hTriangle : |q - q'| ≤ |x.toRat - q| + |y.toRat - q'| := by
    rw [← hSame, abs_sub_comm x.toRat q]
    exact abs_sub_le q x.toRat q'
  linarith

end TableGateway.Binary64
