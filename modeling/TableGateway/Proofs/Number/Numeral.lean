import TableGateway.Number.Numeral
import TableGateway.Proofs.Json.Number

/-!
# How numbers are spelled

An integer is digits with a sign or without one. A decimal has digits on either side of a point, or
on both, and an exponent that is an integer. The readers take exactly these spellings, with the
numbers that they denote.
-/

namespace TableGateway.Numeral

open Json.NumberText (IsDigits)
open Text (Stops)

variable {cs ds body rest : List Char} {negative : Bool} {n : Int} {x : Binary64}

theorem isDigits_eq_true_iff : isDigits ds = true ↔ ds ≠ [] ∧ IsDigits ds := by
  rw [isDigits, Bool.and_eq_true, List.all_eq_true]
  simp [IsDigits]

inductive IsInteger (cs : List Char) : Int → Prop
  | mk {negative : Bool} {ds : List Char} (hSign : Signed ds negative cs) (hSome : ds ≠ [])
      (hDigits : IsDigits ds) :
      IsInteger cs (if negative then -(ofDigits ds : Int) else (ofDigits ds : Int))

theorem readInteger?_eq_some_iff : readInteger? cs = some n ↔ IsInteger cs n := by
  obtain ⟨negative, ds, hSign⟩ := exists_signed cs
  rw [readInteger?, takeSign_eq_iff.mpr hSign, Option.ite_none_right_eq_some,
    isDigits_eq_true_iff]
  constructor
  · rintro ⟨⟨hSome, hDigits⟩, hValue⟩
    cases hValue
    exact .mk hSign hSome hDigits
  · rintro ⟨hOther, hSome, hDigits⟩
    cases (takeSign_eq_iff.mpr hSign).symm.trans (takeSign_eq_iff.mpr hOther)
    exact ⟨⟨hSome, hDigits⟩, rfl⟩

theorem readInt64?_eq_some_iff :
    readInt64? cs = some n ↔ IsInteger cs n ∧ minInt64 ≤ n ∧ n ≤ maxInt64 := by
  rw [readInt64?, Option.filter_eq_some_iff, readInteger?_eq_some_iff, fitsInt64]
  simp

inductive IsExponent : List Char → Int → Prop
  | none : IsExponent [] 0
  | some {c : Char} {cs : List Char} {n : Int} (hLetter : c = 'e' ∨ c = 'E')
      (hInteger : IsInteger cs n) : IsExponent (c :: cs) n

/-- Digits with a point among them, next to them or nowhere, and an exponent. It denotes the number
of all the digits with the decimal exponent that makes up for those behind the point. -/
inductive IsDecimal : List Char → Nat → Int → Prop
  | mk {whole fraction point exponent : List Char} {n : Int} (hWhole : IsDigits whole)
      (hFraction : IsDigits fraction) (hSome : whole ++ fraction ≠ [])
      (hPoint : (point = [] ∧ fraction = []) ∨ point = '.' :: fraction)
      (hExponent : IsExponent exponent n) :
      IsDecimal (whole ++ (point ++ exponent)) (ofDigits (whole ++ fraction))
        (n - fraction.length)

theorem readExponent?_eq_some_iff : readExponent? cs = some n ↔ IsExponent cs n := by
  cases cs with
  | nil =>
    constructor
    · rintro ⟨⟩
      exact .none
    · rintro ⟨⟩
      rfl
  | cons c cs =>
    rw [readExponent?, Option.ite_none_right_eq_some, readInteger?_eq_some_iff]
    constructor
    · rintro ⟨hLetter, hInteger⟩
      exact .some hLetter hInteger
    · rintro (_ | ⟨hLetter, hInteger⟩)
      exact ⟨hLetter, hInteger⟩

theorem IsExponent.stops {p : Char → Bool} (hSmall : p 'e' = false) (hLarge : p 'E' = false)
    (h : IsExponent cs n) : Stops p cs := by
  cases h with
  | none => exact nofun
  | some hLetter _ =>
    rintro c ⟨⟩
    rcases hLetter with rfl | rfl
    · exact hSmall
    · exact hLarge

theorem splitDigits_eq_iff :
    splitDigits cs = (ds, rest) ↔ cs = ds ++ rest ∧ IsDigits ds ∧ Stops Char.isDigit rest := by
  rw [splitDigits, Prod.mk.injEq, Text.span_eq_iff]
  rfl

/-- What stands between the digits before the point and the exponent. -/
theorem takeFraction_spells {fraction : List Char} (h : takeFraction cs = (fraction, rest)) :
    ∃ point, cs = point ++ rest ∧ IsDigits fraction ∧
      ((point = [] ∧ fraction = []) ∨ point = '.' :: fraction) := by
  rw [takeFraction.eq_def] at h
  split at h
  · obtain ⟨rfl, hDigits, -⟩ := splitDigits_eq_iff.mp h
    exact ⟨'.' :: fraction, rfl, hDigits, .inr rfl⟩
  · cases h
    exact ⟨[], rfl, nofun, .inl ⟨rfl, rfl⟩⟩

theorem takeFraction_eq {fraction point exponent : List Char} (hFraction : IsDigits fraction)
    (hPoint : (point = [] ∧ fraction = []) ∨ point = '.' :: fraction)
    (hExponent : IsExponent exponent n) :
    takeFraction (point ++ exponent) = (fraction, exponent) := by
  rcases hPoint with ⟨rfl, rfl⟩ | rfl
  · have hNone := hExponent.stops (p := (· = '.')) (by decide) (by decide)
    rw [List.nil_append, takeFraction.eq_def]
    split
    · cases hNone '.' rfl
    · rfl
  · have hStops := hExponent.stops (p := Char.isDigit) (by decide) (by decide)
    rw [List.cons_append, takeFraction, splitDigits_eq_iff]
    exact ⟨rfl, hFraction, hStops⟩

theorem readDecimal?_eq_some_iff :
    readDecimal? negative cs = some x ↔
      ∃ digits exponent, IsDecimal cs digits exponent ∧
        x = .ofDecimal negative digits exponent := by
  constructor
  · intro h
    obtain ⟨whole, behind, hSplit⟩ : ∃ ds rest, splitDigits cs = (ds, rest) := ⟨_, _, rfl⟩
    obtain ⟨fraction, rest, hTake⟩ : ∃ ds rest, takeFraction behind = (ds, rest) := ⟨_, _, rfl⟩
    obtain ⟨rfl, hWhole, -⟩ := splitDigits_eq_iff.mp hSplit
    obtain ⟨point, rfl, hFraction, hPoint⟩ := takeFraction_spells hTake
    rw [readDecimal?, hSplit] at h
    simp only [hTake] at h
    obtain ⟨hSome, hValue⟩ := Option.ite_none_left_eq_some.mp h
    obtain ⟨n, hExponent, rfl⟩ := Option.map_eq_some_iff.mp hValue
    rw [List.isEmpty_iff] at hSome
    exact ⟨_, _, .mk hWhole hFraction hSome hPoint (readExponent?_eq_some_iff.mp hExponent), rfl⟩
  · rintro ⟨digits, exponent, hDecimal, rfl⟩
    cases hDecimal with
    | @mk whole fraction point rest n hWhole hFraction hSome hPoint hExponent =>
      have hStops : Stops Char.isDigit (point ++ rest) := by
        rcases hPoint with ⟨rfl, rfl⟩ | rfl
        · exact hExponent.stops (by decide) (by decide)
        · rintro c ⟨⟩
          rfl
      rw [readDecimal?, splitDigits_eq_iff.mpr ⟨rfl, hWhole, hStops⟩]
      simp only [takeFraction_eq hFraction hPoint hExponent,
        readExponent?_eq_some_iff.mpr hExponent, Option.map_some]
      exact if_neg (by simpa using hSome)

/-- A decimal, or one of three words in any case, with a sign or without one. -/
inductive IsDouble (cs : List Char) : Binary64 → Prop
  | decimal {negative : Bool} {body : List Char} {digits : Nat} {exponent : Int}
      (hSign : Signed body negative cs) (h : IsDecimal body digits exponent) :
      IsDouble cs (.ofDecimal negative digits exponent)
  | infinity {negative : Bool} {body : List Char} (hSign : Signed body negative cs)
      (hWord : body.map Char.toLower = "inf".toList ∨
        body.map Char.toLower = "infinity".toList) : IsDouble cs (.infinity negative)
  | nan {negative : Bool} {body : List Char} (hSign : Signed body negative cs)
      (hWord : body.map Char.toLower = "nan".toList) : IsDouble cs .nan

theorem IsDecimal.head {digits : Nat} {exponent : Int} (h : IsDecimal cs digits exponent) :
    ∃ c rest, cs = c :: rest ∧ (c.isDigit = true ∨ c = '.') := by
  cases h with
  | @mk whole fraction point tail _ hWhole _ hSome hPoint _ =>
    cases whole with
    | cons c whole => exact ⟨c, _, rfl, .inl (hWhole c List.mem_cons_self)⟩
    | nil =>
      rcases hPoint with ⟨-, rfl⟩ | rfl
      · exact absurd rfl hSome
      · exact ⟨'.', _, rfl, .inr rfl⟩

/-- A decimal begins with a digit or a point, and so it is no word. -/
theorem IsDecimal.ne_word {digits : Nat} {exponent : Int} (h : IsDecimal cs digits exponent)
    {c : Char} {word : List Char} (hDigit : c.isDigit = false) (hPoint : c ≠ '.') :
    cs.map Char.toLower ≠ c :: word := by
  obtain ⟨first, rest, rfl, hFirst⟩ := h.head
  have hSame : first.toLower = first := by
    rcases hFirst with hFirst | rfl
    · exact toLower_of_isDigit hFirst
    · rfl
  rw [List.map_cons, hSame]
  rintro ⟨⟩
  rcases hFirst with hFirst | hFirst
  · rw [hDigit] at hFirst
    cases hFirst
  · exact hPoint hFirst

theorem readDouble?_eq_some_iff : readDouble? cs = some x ↔ IsDouble cs x := by
  obtain ⟨negative, body, hSign⟩ := exists_signed cs
  have hUnique {negative' : Bool} {body' : List Char} (h : Signed body' negative' cs) :
      negative' = negative ∧ body' = body := by
    cases (takeSign_eq_iff.mpr h).symm.trans (takeSign_eq_iff.mpr hSign)
    exact ⟨rfl, rfl⟩
  have hWord (w : String) :
      String.ofList (body.map Char.toLower) = w ↔ body.map Char.toLower = w.toList := by
    rw [← String.toList_inj, String.toList_ofList]
  rw [readDouble?, takeSign_eq_iff.mpr hSign]
  simp only [hWord]
  constructor
  · intro h
    split at h
    · next hInfinity =>
      cases h
      exact .infinity hSign hInfinity
    · split at h
      · next hNan =>
        cases h
        exact .nan hSign hNan
      · obtain ⟨digits, exponent, hDecimal, rfl⟩ := readDecimal?_eq_some_iff.mp h
        exact .decimal hSign hDecimal
  · rintro (⟨hOther, hDecimal⟩ | ⟨hOther, hInfinity⟩ | ⟨hOther, hNan⟩)
    -- The words are tried first, and no decimal is one of them.
    · obtain ⟨rfl, rfl⟩ := hUnique hOther
      rw [if_neg, if_neg, readDecimal?_eq_some_iff]
      · exact ⟨_, _, hDecimal, rfl⟩
      · exact hDecimal.ne_word (by decide) (by decide)
      · exact not_or.mpr ⟨hDecimal.ne_word (by decide) (by decide),
          hDecimal.ne_word (by decide) (by decide)⟩
    · obtain ⟨rfl, rfl⟩ := hUnique hOther
      exact if_pos hInfinity
    · obtain ⟨rfl, rfl⟩ := hUnique hOther
      rw [if_neg, if_pos hNan]
      rw [hNan]
      decide

end TableGateway.Numeral
