import TableGateway.Proofs.Json.Reread

/-!
# Numbers in range

Whatever text a number is read from, it is an integer of 64 bits or a finite double.
-/

namespace TableGateway

namespace Binary64

variable {x y : Binary64} {negative : Bool}

theorem size_le (h : x.isFinite = true) : x.size ≤ (2 ^ 53 - 1) * 2 ^ topScale := by
  have hPower : Nat.pow 2 x.scale = 2 ^ x.scale := rfl
  rw [size, hPower]
  apply Nat.mul_le_mul
  · have hShort := x.significand_lt
    omega
  · exact Nat.pow_le_pow_right (by decide) (scale_le h)

/-- Rounding does not go below a power of two. -/
theorem pow_le_rounded {n j : Nat} {s : Nat} (hPower : 2 ^ j ≤ n)
    (hNormal : s = 0 ∨ 2 ^ 52 ≤ roundDiv n (2 ^ s)) : 2 ^ j ≤ roundDiv n (2 ^ s) * 2 ^ s := by
  have hPositive := Nat.two_pow_pos s
  rcases Nat.le_total s j with hCoarse | hFine
  · have hSplit : 2 ^ (j - s) * 2 ^ s = 2 ^ j := by rw [← Nat.pow_add, Nat.sub_add_cancel hCoarse]
    rw [← hSplit] at hPower ⊢
    exact Nat.mul_le_mul_right _ (le_roundDiv hPositive hPower)
  · have hSome : 1 ≤ roundDiv n (2 ^ s) := by
      rcases hNormal with rfl | hLarge
      · apply le_roundDiv hPositive
        rw [Nat.one_mul]
        exact Nat.le_trans (Nat.two_pow_pos j) hPower
      · exact Nat.le_trans (by decide) hLarge
    calc
      2 ^ j ≤ 2 ^ s := Nat.pow_le_pow_right (by decide) hFine
      _ ≤ roundDiv n (2 ^ s) * 2 ^ s := Nat.le_mul_of_pos_left _ hSome

theorem unit_eq_pow : ∃ j, unit = 2 ^ j := ⟨1074, by decide +kernel⟩

/-- A positive integer is not rounded below one. -/
theorem unit_le_size_ofRatio {n : Nat} (h : n ≠ 0) (hFinite : nearest n 1 < infinite) :
    unit ≤ (ofRatio negative n 1).size := by
  obtain ⟨s, hNearest, hRounded⟩ := nearest_spec n Nat.one_pos
  have hMagnitude : (ofRatio negative n 1).magnitude =
      s * 2 ^ 52 + roundDiv (n * unit) (1 * 2 ^ s) := by
    rw [magnitude_ofRatio, hNearest]
    rw [hNearest] at hFinite
    omega
  rw [size_of_magnitude hMagnitude hRounded.isShort hRounded.isNormal]
  have hNormal := hRounded.isNormal
  have hOne : unit ≤ n * unit := Nat.le_mul_of_pos_left unit (Nat.pos_of_ne_zero h)
  obtain ⟨j, hPower⟩ := unit_eq_pow
  rw [Nat.one_mul] at hNormal ⊢
  rw [hPower] at hOne hNormal ⊢
  exact pow_le_rounded hOne hNormal

theorem isFinite_divSizes (hx : x.isFinite = true) (hy : unit ≤ y.size) :
    (x.divSizes y).isFinite = true := by
  have hPositive := Nat.lt_of_lt_of_le unit_pos hy
  have hSize := size_le hx
  have hFinite : nearest x.size y.size < infinite := by
    apply nearest_lt_infinite hPositive
    have hTop : 0 < 2 ^ topScale := Nat.two_pow_pos topScale
    calc
      2 * (x.size * unit) ≤ 2 * ((2 ^ 53 - 1) * 2 ^ topScale * y.size) := by
        apply Nat.mul_le_mul_left
        exact Nat.mul_le_mul hSize hy
      _ = (2 ^ 54 - 2) * (y.size * 2 ^ topScale) := by ring
      _ < (2 ^ 54 - 1) * (y.size * 2 ^ topScale) :=
        Nat.mul_lt_mul_of_pos_right (by decide) (Nat.mul_pos hPositive hTop)
  rw [isFinite, divSizes, magnitude_ofRatio]
  exact decide_eq_true hFinite

theorem isFinite_zero : (ofMagnitude false 0).isFinite = true := by
  decide

theorem isFinite_withSign (h : x.isFinite = true) : (withSign negative x).isFinite = true := by
  have hMagnitude : x.magnitude < infinite := of_decide_eq_true h
  have hInfinite : infinite < 2 ^ 63 := by decide
  rw [isFinite, withSign, magnitude_ofMagnitude (by omega)]
  exact h

end Binary64

namespace Json

open Binary64

namespace NumberText

variable {t : NumberText} {m : Nat} {x : Binary64}

theorem LeavesRoom.unit_le_size {k top : Nat} (hRoom : LeavesRoom 1 top) (h : k ≤ top) :
    unit ≤ (powerOfTen k).size := by
  have hPositive : Nat.pow 10 k ≠ 0 := (Nat.pow_pos (by decide)).ne'
  apply unit_le_size_ofRatio hPositive
  apply hRoom.nearest_lt
  rw [Nat.one_mul]
  exact Nat.pow_le_pow_right (by decide) h

theorem unit_le_size_powerOfTen {k : Nat} (h : k ≤ 308) : unit ≤ (powerOfTen k).size := by
  have hRoom : LeavesRoom 1 308 := by
    rw [LeavesRoom]
    decide +kernel
  exact hRoom.unit_le_size h

theorem isFinite_scaled? {k : Int} {y : Binary64} (hx : x.isFinite = true)
    (h : scaled? x k = some y) : y.isFinite = true := by
  rw [scaled?] at h
  split at h
  · cases h
    exact hx
  · split at h
    · cases h
    · split at h
      · exact (Option.filter_eq_some_iff.mp h).2
      · split at h
        · rw [← Option.some.inj h]
          exact isFinite_divSizes hx (unit_le_size_powerOfTen (by omega))
        · split at h
          · rw [← Option.some.inj h]
            apply isFinite_divSizes
            · exact isFinite_divSizes hx (unit_le_size_powerOfTen (Nat.le_refl 308))
            · exact unit_le_size_powerOfTen (by omega)
          · rw [← Option.some.inj h]
            exact isFinite_zero

theorem isFinite_double? (h : t.double? = some x) : x.isFinite = true := by
  have hKept : t.kept.1 ≤ maxKept := keep_le (keep_le (Nat.zero_le _) _) _
  have hDigits : (ofRatio false t.kept.1 1).isFinite = true := by
    rw [isFinite, magnitude_ofRatio]
    apply decide_eq_true
    exact (leavesRoom_of_le_maxKept hKept).nearest_lt (Nat.mul_one _).ge
  rw [double?] at h
  obtain ⟨y, hScaled, rfl⟩ := Option.map_eq_some_iff.mp h
  apply isFinite_withSign
  split at hScaled
  · exact isFinite_scaled? hDigits hScaled
  · simp only at hScaled
    split at hScaled
    · exact isFinite_scaled? hDigits hScaled
    · split at hScaled
      · cases hScaled
      · rw [← Option.some.inj hScaled]
        exact isFinite_zero

theorem inRange_number? {n : Number} (h : t.number? = some n) : n.InRange := by
  have hPower : Nat.pow 2 63 = 2 ^ 63 := rfl
  have hKept : maxKept = 2 ^ 64 - 1 := by decide
  rw [number?, hPower] at h
  split at h
  · next hInteger =>
    have hFits : Numeral.ofDigits t.whole ≤ maxKept := by
      have hParts := hInteger.1
      simp only [isInteger, Bool.and_eq_true, decide_eq_true_eq] at hParts
      exact hParts.2
    cases h
    exact ⟨by omega, by omega⟩
  · split at h
    · next hNegative =>
      cases h
      exact ⟨by omega, by omega⟩
    · obtain ⟨x, hDouble, rfl⟩ := Option.map_eq_some_iff.mp h
      exact isFinite_double? hDouble

end NumberText

end Json

end TableGateway
