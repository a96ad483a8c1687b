import TableGateway.Proofs.Number.Digits
import TableGateway.Proofs.Number.Shortest

/-!
# Scaled doubles

The digits of a number are rounded first and scaled afterwards, and both steps may lift the result.
It is finite nevertheless if the number leaves room for the two of them.
-/

namespace TableGateway.Json.NumberText

open Binary64

variable {m e : Nat}

/-- The number `m · 10 ^ e` stays below infinity when it grows twice by one part in `2 ^ 53`. -/
def LeavesRoom (m e : Nat) : Prop :=
  2 * (m * 10 ^ e * unit) * ((2 ^ 53 + 1) * (2 ^ 53 + 1)) <
    2 ^ 106 * ((2 ^ 54 - 1) * 2 ^ topScale)

theorem LeavesRoom.mono {m' e' : Nat} (h : LeavesRoom m e) (hLe : m' * 10 ^ e' ≤ m * 10 ^ e) :
    LeavesRoom m' e' := by
  refine Nat.lt_of_le_of_lt ?_ h
  apply Nat.mul_le_mul_right
  apply Nat.mul_le_mul_left
  exact Nat.mul_le_mul_right unit hLe

theorem LeavesRoom.nearest_lt {n : Nat} (h : LeavesRoom m e) (hLe : n ≤ m * 10 ^ e) :
    nearest n 1 < infinite := by
  apply nearest_lt_infinite Nat.one_pos
  rw [Nat.one_mul]
  have hProduct : n * unit ≤ m * 10 ^ e * unit := Nat.mul_le_mul_right unit hLe
  rw [LeavesRoom] at h
  generalize m * 10 ^ e * unit = product at h hProduct
  generalize (2 : Nat) ^ topScale = top at h ⊢
  omega

theorem isFinite_mulSizes (hm : m ≠ 0) (h : LeavesRoom m e) :
    ((ofRatio false m 1).mulSizes (powerOfTen e)).isFinite = true := by
  have hPower : Nat.pow 10 e = 10 ^ e := rfl
  have hUnits : 0 < unit * unit := Nat.mul_pos unit_pos unit_pos
  have hLeft : (ofRatio false m 1).size * 2 ^ 53 ≤ m * unit * (2 ^ 53 + 1) :=
    size_ofRatio_one_le (h.nearest_lt (Nat.le_mul_of_pos_right m (Nat.pow_pos (by decide))))
  have hRight : (powerOfTen e).size * 2 ^ 53 ≤ 10 ^ e * unit * (2 ^ 53 + 1) :=
    size_ofRatio_one_le (h.nearest_lt (Nat.le_mul_of_pos_left (10 ^ e) (Nat.pos_of_ne_zero hm)))
  have hFinite : nearest ((ofRatio false m 1).size * (powerOfTen e).size) (unit * unit) <
      infinite := by
    apply nearest_lt_infinite hUnits
    apply Nat.lt_of_mul_lt_mul_left (a := 2 ^ 106)
    calc
      2 ^ 106 * (2 * ((ofRatio false m 1).size * (powerOfTen e).size * unit))
        = 2 * ((ofRatio false m 1).size * 2 ^ 53 * ((powerOfTen e).size * 2 ^ 53)) * unit := by
          ring
      _ ≤ 2 * (m * unit * (2 ^ 53 + 1) * (10 ^ e * unit * (2 ^ 53 + 1))) * unit := by
          apply Nat.mul_le_mul_right
          apply Nat.mul_le_mul_left
          exact Nat.mul_le_mul hLeft hRight
      _ = 2 * (m * 10 ^ e * unit) * ((2 ^ 53 + 1) * (2 ^ 53 + 1)) * (unit * unit) := by ring
      _ < 2 ^ 106 * ((2 ^ 54 - 1) * 2 ^ topScale) * (unit * unit) :=
          Nat.mul_lt_mul_of_pos_right h hUnits
      _ = 2 ^ 106 * ((2 ^ 54 - 1) * (unit * unit * 2 ^ topScale)) := by ring
  rw [isFinite, mulSizes, magnitude_ofRatio]
  exact decide_eq_true hFinite

theorem LeavesRoom.exponent_lt {n : Nat} (hm : m ≠ 0) (h : LeavesRoom m e)
    (hNone : ¬ LeavesRoom 1 n) : e < n := by
  by_contra hLarge
  apply hNone
  apply h.mono
  exact Nat.mul_le_mul (Nat.pos_of_ne_zero hm)
    (Nat.pow_le_pow_right (by decide) (Nat.le_of_not_lt hLarge))

theorem LeavesRoom.exponent_le (hm : m ≠ 0) (h : LeavesRoom m e) : e ≤ 308 := by
  have hNone : ¬ LeavesRoom 1 309 := by
    rw [LeavesRoom]
    decide +kernel
  exact Nat.le_of_lt_succ (h.exponent_lt hm hNone)

theorem isSome_scaled? {k : Int} (h : m ≠ 0 → 0 ≤ k → LeavesRoom m k.toNat) :
    (scaled? (ofRatio false m 1) k).isSome = true := by
  rw [scaled?]
  split
  · rfl
  · next hSize =>
    have hm : m ≠ 0 := by
      rintro rfl
      exact hSize (by decide +kernel)
    split
    · next hLarge =>
      have hExponent := (h hm (by omega)).exponent_le hm
      omega
    · split
      · next hWhole =>
        rw [Option.filter_some, if_pos (isFinite_mulSizes hm (h hm hWhole))]
        rfl
      · split
        · rfl
        · split <;> rfl

/-- What 64 bits hold leaves room by far. -/
theorem leavesRoom_of_le_maxKept (h : m ≤ maxKept) : LeavesRoom m 0 := by
  have hRoom : LeavesRoom maxKept 0 := by
    rw [LeavesRoom]
    decide +kernel
  exact hRoom.mono (Nat.mul_le_mul_right _ h)

end TableGateway.Json.NumberText
