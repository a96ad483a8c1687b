import TableGateway.Proofs.Number.Range

/-!
# Single precision numbers as doubles

A quotient that a double can hold is not rounded. Every finite single is such a quotient, so the
double that it is widened to has its value.
-/

namespace TableGateway.Binary64

variable {num den m j bits other : Nat} {x : Binary64} {negative : Bool}

/-- `num / den` is `m · 2 ^ j` least subnormals. -/
def IsExact (num den m j : Nat) : Prop := 0 < den ∧ m < 2 ^ 53 ∧ num * unit = m * (den * 2 ^ j)

theorem IsExact.isFinite_ofRatio (h : IsExact num den m j) (hScale : j ≤ topScale)
    (negative : Bool) :
    (ofRatio negative num den).isFinite = true := by
  obtain ⟨hDen, hShort, hExact⟩ := h
  have hTop : den * 2 ^ j ≤ den * 2 ^ topScale :=
    Nat.mul_le_mul_left den (Nat.pow_le_pow_right (by decide) hScale)
  have hPositive : 0 < den * 2 ^ topScale := Nat.mul_pos hDen (Nat.two_pow_pos topScale)
  rw [isFinite, magnitude_ofRatio, decide_eq_true_iff]
  apply nearest_lt_infinite hDen
  calc
    2 * (num * unit) = 2 * m * (den * 2 ^ j) := by rw [hExact, Nat.mul_assoc]
    _ ≤ 2 * m * (den * 2 ^ topScale) := Nat.mul_le_mul_left _ hTop
    _ < (2 ^ 54 - 1) * (den * 2 ^ topScale) := Nat.mul_lt_mul_of_pos_right (by omega) hPositive

theorem IsExact.size_ofRatio (h : IsExact num den m j) (hScale : j ≤ topScale) :
    (ofRatio negative num den).size = m * 2 ^ j := by
  have hFinite : nearest num den < infinite := by
    have hMagnitude := h.isFinite_ofRatio hScale negative
    rwa [isFinite, magnitude_ofRatio, decide_eq_true_iff] at hMagnitude
  obtain ⟨hDen, hShort, hExact⟩ := h
  obtain ⟨s, hNearest, hRounded⟩ := nearest_spec num hDen
  have hMagnitude : (ofRatio negative num den).magnitude =
      s * 2 ^ 52 + roundDiv (num * unit) (den * 2 ^ s) := by
    rw [magnitude_ofRatio, hNearest]
    rw [hNearest] at hFinite
    omega
  rw [size_of_magnitude hMagnitude hRounded.isShort hRounded.isNormal]
  -- A coarser scale would need a significand of more than 53 bits.
  have hFine : s ≤ j := by
    by_contra hCoarse
    have hLarge := hRounded.isLarge.resolve_left (by omega)
    have hStep : den * 2 ^ j * 2 ≤ den * 2 ^ s := by
      rw [Nat.mul_assoc, ← Nat.pow_succ]
      exact Nat.mul_le_mul_left den (Nat.pow_le_pow_right (by decide) (by omega))
    have hPositive : 0 < den * 2 ^ j := Nat.mul_pos hDen (Nat.two_pow_pos j)
    have hLess : m * (den * 2 ^ j) < 2 ^ 53 * (den * 2 ^ j) :=
      Nat.mul_lt_mul_of_pos_right hShort hPositive
    rw [hExact] at hLarge
    omega
  have hPower : 2 ^ (j - s) * 2 ^ s = 2 ^ j := by rw [← Nat.pow_add, Nat.sub_add_cancel hFine]
  have hMultiple : num * unit = m * 2 ^ (j - s) * (den * 2 ^ s) := by
    calc
      num * unit = m * (den * (2 ^ (j - s) * 2 ^ s)) := by rw [hExact, hPower]
      _ = m * 2 ^ (j - s) * (den * 2 ^ s) := by ring
  have hPositive : 0 < den * 2 ^ s := Nat.mul_pos hDen (Nat.two_pow_pos s)
  have hQuotient : roundDiv (num * unit) (den * 2 ^ s) = m * 2 ^ (j - s) :=
    Nat.le_antisymm (roundDiv_le hPositive hMultiple.le) (le_roundDiv hPositive hMultiple.ge)
  rw [hQuotient, Nat.mul_assoc, hPower]

theorem isNegative_ofMagnitude (h : m < 2 ^ 63) :
    (ofMagnitude negative m).isNegative = negative := by
  have hPower : Nat.pow 2 63 = 2 ^ 63 := rfl
  rw [isNegative, ofMagnitude, hPower]
  cases negative with
  | false =>
    rw [if_neg (by decide), UInt64.toNat_ofNat', decide_eq_false_iff_not]
    omega
  | true =>
    rw [if_pos rfl, UInt64.toNat_ofNat', decide_eq_true_iff]
    omega

theorem isNegative_ofRatio : (ofRatio negative num den).isNegative = negative := by
  apply isNegative_ofMagnitude
  have hBound : nearest num den ≤ infinite := Nat.min_le_left _ _
  rw [infinite_eq, topScale] at hBound
  omega

def singleIsNegative (bits : Nat) : Bool := Nat.pow 2 31 ≤ bits % Nat.pow 2 32

def singleExponent (bits : Nat) : Nat := bits % Nat.pow 2 31 / Nat.pow 2 23

def singleFraction (bits : Nat) : Nat := bits % Nat.pow 2 31 % Nat.pow 2 23

theorem singleFraction_lt (bits : Nat) : singleFraction bits < 2 ^ 23 :=
  Nat.mod_lt _ (by decide)

def singleIsFinite (bits : Nat) : Bool := singleExponent bits ≠ 255

/-- The absolute value of a finite single, in least subnormals of singles. -/
def singleSize (bits : Nat) : Nat :=
  if singleExponent bits = 0 then singleFraction bits
  else (singleFraction bits + 2 ^ 23) * 2 ^ (singleExponent bits - 1)

/-- The double has the sign and the value of the single. -/
structure Widens (bits : Nat) (x : Binary64) : Prop where
  isFinite : x.isFinite = true
  isNegative : x.isNegative = singleIsNegative bits
  size : x.size * 2 ^ 149 = singleSize bits * unit

theorem exists_unit_eq : ∃ k ≤ 1000, unit = 2 ^ 149 * 2 ^ k :=
  ⟨925, by decide, by decide +kernel⟩

theorem widens_of_isExact (hSingle : ofSingle bits = ofRatio (singleIsNegative bits) num den)
    (hExact : IsExact num den m j) (hScale : j ≤ topScale)
    (hSize : m * 2 ^ j * 2 ^ 149 = singleSize bits * unit) : Widens bits (ofSingle bits) where
  isFinite := by
    rw [hSingle]
    exact hExact.isFinite_ofRatio hScale _
  isNegative := by
    rw [hSingle, isNegative_ofRatio]
  size := by
    rw [hSingle, hExact.size_ofRatio hScale, hSize]

theorem widens_ofSingle (h : singleIsFinite bits = true) : Widens bits (ofSingle bits) := by
  obtain ⟨k, hScale, hUnit⟩ := exists_unit_eq
  have hFinite : singleExponent bits ≠ 255 := of_decide_eq_true h
  have hFraction := singleFraction_lt bits
  have hExponent : singleExponent bits < 256 := by
    have hRest : bits % Nat.pow 2 31 < 256 * Nat.pow 2 23 := Nat.mod_lt bits (by decide)
    exact (Nat.div_lt_iff_lt_mul (by decide)).mpr hRest
  by_cases hZero : singleExponent bits = 0
  · have hSingle : ofSingle bits =
        ofRatio (singleIsNegative bits) (singleFraction bits) (2 ^ 149) :=
      (if_neg hFinite).trans (if_pos hZero)
    apply widens_of_isExact (m := singleFraction bits) (j := k) hSingle
    · exact ⟨Nat.two_pow_pos 149, by omega, by rw [hUnit]⟩
    · rw [topScale]
      omega
    · rw [singleSize, if_pos hZero, hUnit, Nat.mul_assoc, Nat.mul_comm (2 ^ k)]
  · have hSingle : ofSingle bits = ofRatio (singleIsNegative bits)
        ((singleFraction bits + 2 ^ 23) * 2 ^ singleExponent bits) (2 ^ 150) :=
      (if_neg hFinite).trans (if_neg hZero)
    apply widens_of_isExact (m := singleFraction bits + 2 ^ 23)
      (j := singleExponent bits + k - 1) hSingle
    · refine ⟨Nat.two_pow_pos 150, by omega, ?_⟩
      have hPower : 2 ^ singleExponent bits * (2 ^ 149 * 2 ^ k) =
          2 ^ 150 * 2 ^ (singleExponent bits + k - 1) := by
        rw [← Nat.pow_add, ← Nat.pow_add, ← Nat.pow_add]
        exact congrArg (2 ^ ·) (by omega)
      rw [hUnit, Nat.mul_assoc, hPower]
    · rw [topScale]
      omega
    · have hPower : 2 ^ (singleExponent bits + k - 1) * 2 ^ 149 =
          2 ^ (singleExponent bits - 1) * (2 ^ 149 * 2 ^ k) := by
        rw [← Nat.pow_add, ← Nat.pow_add, ← Nat.pow_add]
        exact congrArg (2 ^ ·) (by omega)
      rw [singleSize, if_neg hZero, hUnit, Nat.mul_assoc, hPower, Nat.mul_assoc]

theorem singleSize_lt (bits : Nat) : singleSize bits < 2 ^ (23 + singleExponent bits) := by
  have hFraction := singleFraction_lt bits
  rw [singleSize]
  split
  · next hZero =>
    rw [hZero]
    exact hFraction
  · next hZero =>
    calc
      (singleFraction bits + 2 ^ 23) * 2 ^ (singleExponent bits - 1)
        < 2 ^ 24 * 2 ^ (singleExponent bits - 1) :=
          Nat.mul_lt_mul_of_pos_right (by omega) (Nat.two_pow_pos _)
      _ = 2 ^ (23 + singleExponent bits) := by
        rw [← Nat.pow_add]
        exact congrArg (2 ^ ·) (by omega)

theorem le_singleSize (h : singleExponent bits ≠ 0) :
    2 ^ (22 + singleExponent bits) ≤ singleSize bits := by
  rw [singleSize, if_neg h]
  calc
    2 ^ (22 + singleExponent bits) = 2 ^ 23 * 2 ^ (singleExponent bits - 1) := by
      rw [← Nat.pow_add]
      exact congrArg (2 ^ ·) (by omega)
    _ ≤ (singleFraction bits + 2 ^ 23) * 2 ^ (singleExponent bits - 1) :=
      Nat.mul_le_mul_right _ (Nat.le_add_left _ _)

theorem singleExponent_le_of_singleSize (h : singleSize bits ≤ singleSize other) :
    singleExponent bits ≤ singleExponent other := by
  by_contra hMore
  have hNormal : singleExponent bits ≠ 0 := by omega
  have hLow := le_singleSize hNormal
  have hHigh := singleSize_lt other
  have hPower : 2 ^ (23 + singleExponent other) ≤ 2 ^ (22 + singleExponent bits) :=
    Nat.pow_le_pow_right (by decide) (by omega)
  omega

theorem singleFraction_eq_of_singleSize (h : singleSize bits = singleSize other)
    (hExponent : singleExponent bits = singleExponent other) :
    singleFraction bits = singleFraction other := by
  rw [singleSize, singleSize, hExponent] at h
  split at h
  · exact h
  · exact Nat.add_right_cancel (Nat.eq_of_mul_eq_mul_right (Nat.two_pow_pos _) h)

theorem Widens.unique (h : Widens bits x) (h' : Widens other x) (hBits : bits < 2 ^ 32)
    (hOther : other < 2 ^ 32) : bits = other := by
  have hSize : singleSize bits = singleSize other :=
    Nat.eq_of_mul_eq_mul_right unit_pos (h.size.symm.trans h'.size)
  have hExponent : singleExponent bits = singleExponent other :=
    Nat.le_antisymm (singleExponent_le_of_singleSize hSize.le)
      (singleExponent_le_of_singleSize hSize.ge)
  have hFraction := singleFraction_eq_of_singleSize hSize hExponent
  have hSign : singleIsNegative bits = singleIsNegative other :=
    h.isNegative.symm.trans h'.isNegative
  have hPowers : Nat.pow 2 31 = 2 ^ 31 ∧ Nat.pow 2 23 = 2 ^ 23 ∧ Nat.pow 2 32 = 2 ^ 32 :=
    ⟨rfl, rfl, rfl⟩
  obtain ⟨h31, h23, h32⟩ := hPowers
  rw [singleExponent, singleExponent, h31, h23] at hExponent
  rw [singleFraction, singleFraction, h31, h23] at hFraction
  rw [singleIsNegative, singleIsNegative, h31, h32, decide_eq_decide] at hSign
  omega

end TableGateway.Binary64
