import Mathlib.Tactic.Ring
import TableGateway.Json.Number

/-!
# Digits

The digits of a number denote it, and the first of them is no zero unless the number is zero. A
front of the digits denotes the number without its last places, which is what is kept of the digits
that 64 bits cannot hold. No digit has a case. A sign may stand in front of digits.
-/

namespace TableGateway

namespace Numeral

variable {cs body : List Char} {negative : Bool}

/-- The body with a sign of either kind or none. What has none does not begin with one. -/
inductive Signed (body : List Char) : Bool → List Char → Prop
  | minus : Signed body true ('-' :: body)
  | plus : Signed body false ('+' :: body)
  | bare (h : ∀ c ∈ body.head?, c ≠ '-' ∧ c ≠ '+') : Signed body false body

theorem takeSign_eq_iff : takeSign cs = (negative, body) ↔ Signed body negative cs := by
  constructor
  · intro h
    rw [takeSign.eq_def] at h
    split at h
    · cases h
      exact .minus
    · cases h
      exact .plus
    · next hMinus hPlus =>
      cases h
      refine .bare fun c hc => ⟨?_, ?_⟩
      · rintro rfl
        obtain ⟨rest, hCons⟩ := List.head?_eq_some_iff.mp hc
        exact hMinus rest hCons
      · rintro rfl
        obtain ⟨rest, hCons⟩ := List.head?_eq_some_iff.mp hc
        exact hPlus rest hCons
  · rintro (_ | _ | h)
    · rfl
    · rfl
    · rw [takeSign.eq_def]
      split
      · exact absurd rfl (h '-' rfl).1
      · exact absurd rfl (h '+' rfl).2
      · rfl

theorem exists_signed (cs : List Char) : ∃ negative body, Signed body negative cs :=
  ⟨_, _, takeSign_eq_iff.mp rfl⟩

theorem ofDigits_eq (cs : List Char) : ofDigits cs = Nat.ofDigitChars 10 cs 0 :=
  Nat.ofDigitChars_eq_foldl.symm

theorem ofDigits_toDigits (n : Nat) : ofDigits (Nat.toDigits 10 n) = n := by
  rw [ofDigits_eq, Nat.ofDigitChars_ten_toDigits]

theorem ofDigits_append (a b : List Char) :
    ofDigits (a ++ b) = ofDigits a * Nat.pow 10 b.length + ofDigits b := by
  rw [ofDigits_eq, ofDigits_eq, ofDigits_eq, Nat.ofDigitChars_append,
    Nat.ofDigitChars_eq_ofDigitChars_zero, Nat.mul_comm]
  rfl

theorem ofDigits_take (ds : List Char) (j : Nat) :
    ofDigits (ds.take j) * Nat.pow 10 (ds.length - j) ≤ ofDigits ds := by
  calc
    ofDigits (ds.take j) * Nat.pow 10 (ds.length - j)
      ≤ ofDigits (ds.take j) * Nat.pow 10 (ds.drop j).length + ofDigits (ds.drop j) := by
        rw [List.length_drop]
        exact Nat.le_add_right _ _
    _ = ofDigits ds := by rw [← ofDigits_append, List.take_append_drop]

theorem ofDigits_lt (cs : List Char) (h : ∀ c ∈ cs, c.isDigit = true) :
    ofDigits cs < Nat.pow 10 cs.length := by
  induction cs with
  | nil => decide
  | cons c cs ih =>
    rw [List.forall_mem_cons] at h
    have hRest := ih h.2
    have hFirst : ofDigits [c] ≤ 9 := by
      have hUpper : c.toNat ≤ 57 := (Char.isDigit_iff_toNat.mp h.1).2
      change 10 * 0 + (c.toNat - 48) ≤ 9
      omega
    have hSplit : ofDigits (c :: cs) = ofDigits [c] * Nat.pow 10 cs.length + ofDigits cs :=
      ofDigits_append [c] cs
    have hPower : Nat.pow 10 (c :: cs).length = 10 * Nat.pow 10 cs.length := by
      rw [List.length_cons, Nat.mul_comm]
      rfl
    rw [hSplit, hPower]
    have hProduct := Nat.mul_le_mul_right (Nat.pow 10 cs.length) hFirst
    omega

theorem toLower_of_isDigit {c : Char} (h : c.isDigit = true) : c.toLower = c := by
  have hUpper : c.toNat ≤ 57 := (Char.isDigit_iff_toNat.mp h).2
  refine dif_neg fun hLetter => ?_
  have hLower : 65 ≤ c.toNat := hLetter.1
  omega

theorem isDigit_of_mem_toDigits {n : Nat} : ∀ c ∈ Nat.toDigits 10 n, c.isDigit = true :=
  fun _ => Nat.isDigit_of_mem_toDigits (by decide) (by decide)

theorem head?_toDigits {n : Nat} (h : n ≠ 0) : (Nat.toDigits 10 n).head? ≠ some '0' := by
  induction n using Nat.strongRecOn with
  | ind n ih =>
    rw [Nat.toDigits_eq_if (by decide)]
    split
    · next hSmall =>
      have hDigits : ∀ m < 10, m ≠ 0 → [Nat.digitChar m].head? ≠ some '0' := by decide
      exact hDigits n hSmall h
    · next hLarge =>
      have hShorter : n / 10 ≠ 0 := by omega
      have hFront := ih (n / 10) (by omega) hShorter
      obtain ⟨c, cs, hDigits⟩ := List.exists_cons_of_ne_nil (Nat.toDigits_ne_nil (n := n / 10))
      rw [hDigits] at hFront ⊢
      exact hFront

theorem pow_length_toDigits_le {n : Nat} (h : n ≠ 0) :
    Nat.pow 10 ((Nat.toDigits 10 n).length - 1) ≤ n := by
  by_contra hLess
  have hPositive : 0 < (Nat.toDigits 10 n).length := Nat.length_toDigits_pos
  rcases Nat.eq_zero_or_pos ((Nat.toDigits 10 n).length - 1) with hOne | hMore
  · rw [hOne] at hLess
    exact hLess (Nat.one_le_iff_ne_zero.mpr h)
  · have hShort := (Nat.length_toDigits_le_iff (by decide) hMore).mpr (Nat.lt_of_not_le hLess)
    omega

end Numeral

namespace Json.NumberText

open Numeral

/-- What is kept is denoted by the digits that are kept. -/
theorem keep_spec (m : Nat) (cs : List Char) :
    (keep m cs).2 ≤ cs.length ∧
      (keep m cs).1 = m * Nat.pow 10 (keep m cs).2 + ofDigits (cs.take (keep m cs).2) := by
  induction cs generalizing m with
  | nil => exact ⟨Nat.le_refl 0, (Nat.mul_one m).symm⟩
  | cons c cs ih =>
    rw [keep]
    simp only
    split
    · next hFits =>
      obtain ⟨hLength, hKept⟩ := ih (m * 10 + digitValue c)
      refine ⟨Nat.succ_le_succ hLength, ?_⟩
      have hSplit : ofDigits (c :: cs.take (keep (m * 10 + digitValue c) cs).2) =
          ofDigits [c] * Nat.pow 10 (cs.take (keep (m * 10 + digitValue c) cs).2).length +
            ofDigits (cs.take (keep (m * 10 + digitValue c) cs).2) :=
        ofDigits_append [c] _
      have hDigit : ofDigits [c] = digitValue c := by
        change 10 * 0 + digitValue c = digitValue c
        omega
      have hTaken : (cs.take (keep (m * 10 + digitValue c) cs).2).length =
          (keep (m * 10 + digitValue c) cs).2 := by
        rw [List.length_take, Nat.min_eq_left hLength]
      rw [List.take_succ_cons, hSplit, hDigit, hTaken, hKept]
      have hPower (n : Nat) : Nat.pow 10 (n + 1) = Nat.pow 10 n * 10 := rfl
      rw [hPower]
      ring
    · refine ⟨Nat.zero_le _, ?_⟩
      change m = m * 1 + 0
      omega

theorem keep_le {m : Nat} (h : m ≤ maxKept) (cs : List Char) : (keep m cs).1 ≤ maxKept := by
  induction cs generalizing m with
  | nil => exact h
  | cons c cs ih =>
    rw [keep]
    simp only
    split
    · next hFits => exact ih hFits
    · exact h

theorem keep_all {m : Nat} {cs : List Char}
    (h : m * Nat.pow 10 cs.length + ofDigits cs ≤ maxKept) : (keep m cs).2 = cs.length := by
  induction cs generalizing m with
  | nil => rfl
  | cons c cs ih =>
    have hDigit : ofDigits [c] = digitValue c := by
      change 10 * 0 + digitValue c = digitValue c
      omega
    have hSplit : ofDigits (c :: cs) = ofDigits [c] * Nat.pow 10 cs.length + ofDigits cs :=
      ofDigits_append [c] cs
    have hPower : Nat.pow 10 (c :: cs).length = Nat.pow 10 cs.length * 10 := rfl
    have hAll : (m * 10 + digitValue c) * Nat.pow 10 cs.length + ofDigits cs ≤ maxKept := by
      rw [hSplit, hPower, hDigit] at h
      calc
        (m * 10 + digitValue c) * Nat.pow 10 cs.length + ofDigits cs
          = m * (Nat.pow 10 cs.length * 10) +
              (digitValue c * Nat.pow 10 cs.length + ofDigits cs) := by ring
        _ ≤ maxKept := h
    have hOne : 1 ≤ Nat.pow 10 cs.length := Nat.pow_pos (by decide)
    have hFits : m * 10 + digitValue c ≤ maxKept :=
      calc
        m * 10 + digitValue c ≤ (m * 10 + digitValue c) * Nat.pow 10 cs.length :=
          Nat.le_mul_of_pos_right _ hOne
        _ ≤ (m * 10 + digitValue c) * Nat.pow 10 cs.length + ofDigits cs := Nat.le_add_right _ _
        _ ≤ maxKept := hAll
    rw [keep]
    simp only
    rw [if_pos hFits, List.length_cons, ← ih hAll]

end Json.NumberText

end TableGateway
