import TableGateway.Proofs.Number.Digits
import TableGateway.Proofs.Text.Run
import TableGateway.Text.Basic

/-!
# Padded numbers and blanks

A number padded with zeros has the width that it was padded to and is still the number. A text
without blanks at its ends, such as one of digits, is not changed by trimming, and blanks around it
are cut off.
-/

namespace TableGateway.Text

variable {width n : Nat} {cs : List Char}

theorem isDigit_of_mem_padded : ∀ c ∈ padded width n, c.isDigit = true := by
  intro c hc
  rcases List.mem_append.mp hc with hZero | hDigit
  · rw [List.eq_of_mem_replicate hZero]
    rfl
  · exact Numeral.isDigit_of_mem_toDigits c hDigit

theorem ofDigits_padded : Numeral.ofDigits (padded width n) = n := by
  have hZeros (k : Nat) : Numeral.ofDigits (List.replicate k '0') = 0 := by
    induction k with
    | zero => rfl
    | succ k ih => exact ih
  rw [padded, Numeral.ofDigits_append, hZeros, Nat.zero_mul, Nat.zero_add, decimal,
    Numeral.ofDigits_toDigits]

theorem le_length_padded : width ≤ (padded width n).length := by
  rw [padded, List.length_append, List.length_replicate]
  omega

theorem length_padded (hWidth : 0 < width) (h : n < 10 ^ width) :
    (padded width n).length = width := by
  have hShort : (decimal n).length ≤ width := (Nat.length_toDigits_le_iff (by decide) hWidth).mpr h
  rw [padded, List.length_append, List.length_replicate]
  omega

theorem isBlank_of_isDigit {c : Char} (h : c.isDigit = true) : isBlank c = false := by
  have hRange : 48 ≤ c.toNat ∧ c.toNat ≤ 57 := Char.isDigit_iff_toNat.mp h
  simp only [isBlank, blankRanges, List.any_cons, List.any_nil, Bool.or_false,
    Bool.or_eq_false_iff, Bool.and_eq_false_iff, decide_eq_false_iff_not]
  omega

theorem isBlank_of_mem_padded : ∀ c ∈ padded width n, isBlank c = false :=
  fun c hc => isBlank_of_isDigit (isDigit_of_mem_padded c hc)

theorem trimStart_of_head {c : Char} (h : isBlank c = false) : trimStart (c :: cs) = c :: cs := by
  rw [trimStart, List.dropWhile_cons_of_neg (by simp [h])]

theorem stops_append {p : Char → Bool} (hSome : cs ≠ []) (h : ∀ c ∈ cs, p c = false)
    (rest : List Char) : Stops p (cs ++ rest) := by
  cases cs with
  | nil => exact absurd rfl hSome
  | cons c cs =>
    rintro _ ⟨⟩
    exact h c List.mem_cons_self

theorem trim_of_stops (hStart : Stops isBlank cs) (hEnd : Stops isBlank cs.reverse) :
    trim cs = cs := by
  have hKeep {cs : List Char} (h : Stops isBlank cs) : cs.dropWhile isBlank = cs :=
    dropWhile_eq_iff.mpr ⟨[], rfl, nofun, h⟩
  rw [trim, trimStart, hKeep hStart, trimEnd, hKeep hEnd, List.reverse_reverse]

theorem trim_of_not_blank (h : ∀ c ∈ cs, isBlank c = false) : trim cs = cs := by
  apply trim_of_stops
  · exact fun c hc => h c (List.mem_of_mem_head? hc)
  · exact fun c hc => h c (List.mem_reverse.mp (List.mem_of_mem_head? hc))

/-- Blanks around a text do not count. -/
theorem trim_surrounded {before after : List Char} (hBefore : ∀ c ∈ before, isBlank c = true)
    (hAfter : ∀ c ∈ after, isBlank c = true) : trim (before ++ (cs ++ after)) = trim cs := by
  have hEnd (cs : List Char) : trimEnd (cs ++ after) = trimEnd cs := by
    rw [trimEnd, List.reverse_append, List.dropWhile_append_of_pos, trimEnd]
    exact fun c hc => hAfter c (List.mem_reverse.mp hc)
  rw [trim, trimStart, List.dropWhile_append_of_pos hBefore, List.dropWhile_append, trim,
    trimStart]
  split
  · next hNone =>
    rw [List.isEmpty_iff] at hNone
    have hAll : after.dropWhile isBlank = [] :=
      dropWhile_eq_iff.mpr ⟨after, (List.append_nil after).symm, hAfter, by rintro _ ⟨⟩⟩
    rw [hNone, hAll]
  · exact hEnd _

end TableGateway.Text
