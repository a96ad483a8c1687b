import TableGateway.Number.Shortest
import TableGateway.Proofs.Number.Rounding

/-!
# The shortest decimal

What is written for a double lies in the interval of the reals that round to it, and the ends of
this interval bound every decimal that is cut off from it.
-/

namespace TableGateway.Binary64

variable {x : Binary64} {d m j : Nat} {k : Int}

theorem significand_lt (x : Binary64) : x.significand < 2 ^ 53 := by
  have hPower : Nat.pow 2 52 = 2 ^ 52 := rfl
  rw [significand, hPower]
  split
  · omega
  · omega

theorem scale_le (h : x.isFinite = true) : x.scale ≤ topScale := by
  have hPower : Nat.pow 2 52 = 2 ^ 52 := rfl
  have hMagnitude : x.magnitude < infinite := of_decide_eq_true h
  rw [infinite_eq] at hMagnitude
  rw [scale, hPower]
  omega

theorem eq_ofMagnitude (x : Binary64) : x = ofMagnitude x.isNegative x.magnitude := by
  obtain ⟨bits⟩ := x
  have hBound := bits.toNat_lt
  have hPower : Nat.pow 2 63 = 2 ^ 63 := rfl
  rw [ofMagnitude, isNegative, magnitude, hPower]
  simp only [decide_eq_true_eq]
  congr 1
  apply UInt64.toNat_inj.mp
  split
  · rw [UInt64.toNat_ofNat']
    omega
  · rw [UInt64.toNat_ofNat']
    omega

theorem magnitude_of_top (hScale : x.scale = topScale) (hLarge : 2 ^ 53 < x.significand + 3) :
    x.magnitude = infinite - 1 ∨ x.magnitude = infinite - 2 := by
  have hPower : Nat.pow 2 52 = 2 ^ 52 := rfl
  rw [scale, hPower, topScale] at hScale
  rw [significand, hPower] at hLarge
  rw [infinite_eq, topScale]
  split at hLarge
  · omega
  · omega

theorem onGrid_readsBack {found : Nat × Int} (h : x.onGrid k = some found) :
    x.readsBack found.1 found.2 = true := by
  unfold onGrid at h
  extract_lets low at h
  clear_value low
  simp only at h
  split at h
  · next hLow hHigh =>
    split at h
    · cases h
      exact hLow
    · cases h
      exact hHigh
  · next hLow _ =>
    cases h
    exact hLow
  · next _ hHigh =>
    cases h
    exact hHigh
  · cases h

theorem shortest_readsBack (x : Binary64) :
    x.shortest = (0, 0) ∨ x.readsBack x.shortest.1 x.shortest.2 = true := by
  rw [shortest]
  cases hFound : (List.range 20).findSome? fun i => x.onGrid (x.startingGrid - (i : Nat)) with
  | none => exact .inl (by simp only [Option.getD_none])
  | some found =>
    obtain ⟨i, -, hGrid⟩ := List.exists_of_findSome?_eq_some hFound
    right
    simp only [Option.getD_some]
    exact onGrid_readsBack hGrid

/-- Both ends of the interval, the significand being even or not. -/
theorem bounds_of_readsBack (h : x.readsBack d k = true) :
    (4 * x.significand - 2) * 2 ^ x.scale * (gridPoint d k).2 ≤ (gridPoint d k).1 ∧
      (gridPoint d k).1 ≤ (4 * x.significand + 2) * 2 ^ x.scale * (gridPoint d k).2 := by
  have hPower : Nat.pow 2 x.scale = 2 ^ x.scale := rfl
  have hEnds : x.roundingInterval.1 * (gridPoint d k).2 ≤ (gridPoint d k).1 ∧
      (gridPoint d k).1 ≤ x.roundingInterval.2 * (gridPoint d k).2 := by
    rw [readsBack] at h
    simp only at h
    split at h
    · simpa using h
    · have hStrict := Bool.and_eq_true_iff.mp h
      exact ⟨(of_decide_eq_true hStrict.1).le, (of_decide_eq_true hStrict.2).le⟩
  rw [roundingInterval] at hEnds
  simp only [hPower] at hEnds
  refine ⟨?_, hEnds.2⟩
  apply Nat.le_trans _ hEnds.1
  apply Nat.mul_le_mul_right
  apply Nat.mul_le_mul_right
  split
  · omega
  · exact Nat.le_refl _

theorem ne_zero_of_readsBack (hSize : x.size ≠ 0) (h : x.readsBack d k = true) : d ≠ 0 := by
  rintro rfl
  have hLow := (bounds_of_readsBack h).1
  have hPoint : (gridPoint 0 k).1 = 0 := by
    rw [gridPoint]
    split <;> simp
  have hDen : 0 < (gridPoint 0 k).2 := by
    rw [gridPoint]
    split
    · exact Nat.one_pos
    · exact Nat.pow_pos (by decide)
  have hSignificand : x.significand ≠ 0 := by
    intro hNone
    rw [size, hNone, Nat.zero_mul] at hSize
    exact hSize rfl
  have hEnd : 0 < (4 * x.significand - 2) * 2 ^ x.scale * (gridPoint 0 k).2 :=
    Nat.mul_pos (Nat.mul_pos (by omega) (Nat.two_pow_pos x.scale)) hDen
  omega

/-- Digits `m` that are cut off from `d · 10 ^ k` before its last `j` places. -/
theorem bound_of_readsBack (h : x.readsBack d k = true) (hCut : m * 10 ^ j ≤ d)
    (hWhole : 0 ≤ (j : Int) + k) :
    2 * (m * 10 ^ ((j : Int) + k).toNat * unit) ≤ (2 * x.significand + 1) * 2 ^ x.scale := by
  have hHigh := (bounds_of_readsBack h).2
  have hPower (n : Nat) : Nat.pow 10 n = 10 ^ n := rfl
  rw [gridPoint, hPower, hPower] at hHigh
  generalize (2 : Nat) ^ x.scale = p at hHigh ⊢
  split at hHigh
  · next hRight =>
    obtain ⟨n, rfl⟩ := Int.eq_ofNat_of_zero_le hRight
    have hExponent : ((j : Int) + n).toNat = j + n := by omega
    have hProduct : m * 10 ^ j * 10 ^ n * unit ≤ d * 10 ^ n * unit :=
      Nat.mul_le_mul_right _ (Nat.mul_le_mul_right _ hCut)
    have hDouble : d * 10 ^ n * (4 * unit) = 4 * (d * 10 ^ n * unit) := by ring
    have hEnd : (4 * x.significand + 2) * p * 1 = 2 * ((2 * x.significand + 1) * p) := by ring
    rw [Int.toNat_natCast] at hHigh
    simp only [hDouble, hEnd] at hHigh
    rw [hExponent, Nat.pow_add, ← Nat.mul_assoc m]
    omega
  · next hLeft =>
    obtain ⟨n, rfl⟩ : ∃ n : Nat, k = -n := ⟨(-k).toNat, by omega⟩
    obtain ⟨rest, rfl⟩ : ∃ rest, j = rest + n := ⟨j - n, by omega⟩
    have hExponent : ((rest + n : Nat) + -(n : Int)).toNat = rest := by omega
    rw [Int.neg_neg, Int.toNat_natCast] at hHigh
    rw [hExponent]
    apply Nat.le_of_mul_le_mul_right _ (Nat.pow_pos (by decide) : 0 < 10 ^ n)
    have hProduct : m * 10 ^ (rest + n) * unit ≤ d * unit := Nat.mul_le_mul_right _ hCut
    have hDouble : d * (4 * unit) = 4 * (d * unit) := by ring
    have hEnd : (4 * x.significand + 2) * p * 10 ^ n =
        2 * ((2 * x.significand + 1) * p * 10 ^ n) := by ring
    have hShorter : 2 * (m * 10 ^ rest * unit) * 10 ^ n = 2 * (m * 10 ^ (rest + n) * unit) := by
      rw [Nat.pow_add]
      ring
    simp only [hDouble, hEnd] at hHigh
    rw [hShorter]
    omega

end TableGateway.Binary64
