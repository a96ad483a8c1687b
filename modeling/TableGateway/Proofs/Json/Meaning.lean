import TableGateway.Proofs.Json.Exact
import TableGateway.Proofs.Number.Decimal

/-!
# Values that mean what a text says

A value has integers of 64 bits, doubles and whole characters only. A text for which that is enough
is read as a value that means the same: a number that is written with the same value, the same
characters, and of two members with one key the later.
-/

namespace TableGateway.Json

open Binary64 (signed)
open Numeral (ofDigits ofDigits_append ofDigits_toDigits)

namespace NumberText

variable {negative : Bool} {ds : List Char} {point : Int}

/-- The number that the digits stand for. -/
def value (t : NumberText) : ℚ :=
  signed t.negative (ofDigits (t.whole ++ t.fraction) * 10 ^ (t.power - t.fraction.length))

theorem ofDigits_zeros (n : Nat) : ofDigits (List.replicate n '0') = 0 := by
  induction n with
  | zero => rfl
  | succ n ih =>
    rw [List.replicate_succ', ofDigits_append, ih]
    rfl

theorem value_positional (negative : Bool) (ds : List Char) (point : Int) :
    (positional negative ds point).value =
      signed negative (ofDigits ds * 10 ^ (point - ds.length)) := by
  have hZero : ofDigits ['0'] = 0 := rfl
  rw [positional]
  split
  · next hLow =>
    have hPower : (0 : Int) - (List.replicate (-point).toNat '0' ++ ds).length =
        point - ds.length := by
      rw [List.length_append, List.length_replicate]
      omega
    simp only [value, power, hPower, ofDigits_append, ofDigits_zeros, hZero, Nat.zero_mul,
      Nat.zero_add]
  · split
    · next hLow hAll =>
      have hScale : (10 : ℚ) ^ (point - ds.length) =
          (10 : ℚ) ^ (point.toNat - ds.length) := by
        rw [← zpow_natCast]
        congr 1
        omega
      have hTail : ofDigits (ds ++ List.replicate (point.toNat - ds.length) '0' ++ ['0']) =
          ofDigits ds * 10 ^ (point.toNat - ds.length) * 10 := by
        rw [ofDigits_append, ofDigits_append, ofDigits_zeros, hZero, List.length_replicate]
        rfl
      have hTenth : (10 : ℚ) * 10 ^ ((0 : Int) - (['0'] : List Char).length) = 1 := by norm_num
      simp only [value, power, hTail, hScale]
      push_cast
      rw [mul_assoc, hTenth, mul_one]
    · next hLow hSplit =>
      have hPower : (0 : Int) - (ds.drop point.toNat).length = point - ds.length := by
        rw [List.length_drop]
        omega
      simp only [value, power, hPower, List.take_append_drop]

theorem value_scientific (hSome : ds ≠ []) :
    (scientific negative ds point).value =
      signed negative (ofDigits ds * 10 ^ (point - ds.length)) := by
  have hLength := List.length_pos_of_ne_nil hSome
  have hPower : point - 1 - (ds.drop 1).length = point - ds.length := by
    rw [List.length_drop]
    omega
  rw [value, power_scientific]
  simp only [scientific, hPower, List.take_append_drop]

theorem value_ofDecimal (negative : Bool) (d : Nat) (k : Int) :
    (ofDecimal negative d k).value = signed negative (d * 10 ^ k) := by
  have hSome : Nat.toDigits 10 d ≠ [] := Nat.toDigits_ne_nil
  have hPower : ((Nat.toDigits 10 d).length + k : Int) - (Nat.toDigits 10 d).length = k := by
    omega
  rw [ofDecimal]
  split
  · rw [value_positional, ofDigits_toDigits, hPower]
  · rw [value_scientific hSome, ofDigits_toDigits, hPower]

end NumberText

namespace Number

/-- The number that is written. -/
def value (n : Number) : ℚ := (NumberText.ofNumber n).value

theorem value_int (n : Int) : (int n).value = n := by
  have hDigits : ofDigits (Text.decimal n.natAbs ++ []) = n.natAbs := by
    rw [List.append_nil, Text.decimal, ofDigits_toDigits]
  have hPower : (0 : Int) - ([] : List Char).length = 0 := rfl
  simp only [value, NumberText.ofNumber, NumberText.value, NumberText.power, hDigits, hPower,
    zpow_zero, mul_one, signed, decide_eq_true_eq]
  split
  · next hNegative =>
    have hAbs : (n.natAbs : Int) = -n := by omega
    rw [← Int.cast_natCast, hAbs, Int.cast_neg, neg_neg]
  · next hPositive =>
    have hAbs : (n.natAbs : Int) = n := by omega
    rw [← Int.cast_natCast, hAbs]

theorem value_double {x : Binary64} (h : x.size ≠ 0) :
    (double x).value = signed x.isNegative (x.shortest.1 * 10 ^ x.shortest.2) := by
  rw [value, NumberText.ofNumber, if_neg h, NumberText.value_ofDecimal]

end Number

namespace Exact

/-- The depth of the arrays and objects in it. -/
def depth (x : Exact) : Nat := x.toDocument.depth

mutual

/-- A value has room for it: every number in it is read as a number of the same value, and every
string has whole characters. -/
def IsHeld : Exact → Prop
  | .number t => ∃ n, t.number? = some n ∧ n.value = t.value
  | .text parts => (characters? parts).isSome = true
  | .array items => AreHeld items
  | .object members => MembersAreHeld members
  | _ => True

def AreHeld : List Exact → Prop
  | [] => True
  | x :: xs => IsHeld x ∧ AreHeld xs

def MembersAreHeld : List (List StringPart × Exact) → Prop
  | [] => True
  | (parts, x) :: ms => (characters? parts).isSome = true ∧ IsHeld x ∧ MembersAreHeld ms

end

mutual

/-- The value means what the text says. Of two members with one key the later counts. -/
inductive Means : Exact → Json → Prop
  | null : Means .null .null
  | bool (b : Bool) : Means (.bool b) (.bool b)
  | number {t : NumberText} {n : Number} (h : n.value = t.value) : Means (.number t) (.number n)
  | text {parts : List StringPart} {s : String} (h : characters? parts = some s.toList) :
      Means (.text parts) (.text s)
  | array {items : List Exact} {values : List Json} (h : MeanItems items values) :
      Means (.array items) (.array values)
  | object {members : List (List StringPart × Exact)} {values : List (String × Json)}
      (h : MeanMembers members values) : Means (.object members) (.ofMembers values)

inductive MeanItems : List Exact → List Json → Prop
  | nil : MeanItems [] []
  | cons {x : Exact} {j : Json} {items : List Exact} {values : List Json} (h : Means x j)
      (hItems : MeanItems items values) : MeanItems (x :: items) (j :: values)

inductive MeanMembers : List (List StringPart × Exact) → List (String × Json) → Prop
  | nil : MeanMembers [] []
  | cons {parts : List StringPart} {key : String} {x : Exact} {j : Json}
      {members : List (List StringPart × Exact)} {values : List (String × Json)}
      (hKey : characters? parts = some key.toList) (h : Means x j)
      (hMembers : MeanMembers members values) :
      MeanMembers ((parts, x) :: members) ((key, j) :: values)

end

theorem Means.ne_null {x : Exact} {j : Json} (h : x.Means j) (hSome : x ≠ .null) : j ≠ .null := by
  cases h with
  | null => exact absurd rfl hSome
  | _ => exact nofun

mutual

/-- What a value has room for has a value that means it. -/
theorem exists_value? (x : Exact) (h : x.IsHeld) :
    ∃ j, x.toDocument.value? = some j ∧ x.Means j := by
  match x with
  | .null => exact ⟨.null, rfl, .null⟩
  | .bool b => exact ⟨.bool b, rfl, .bool b⟩
  | .number t =>
    obtain ⟨n, hNumber, hValue⟩ := h
    refine ⟨.number n, ?_, .number hValue⟩
    rw [toDocument, hNumber]
    rfl
  | .text parts =>
    obtain ⟨cs, hParts⟩ := Option.isSome_iff_exists.mp h
    refine ⟨.text (String.ofList cs), ?_, .text ?_⟩
    · rw [toDocument, hParts]
      rfl
    · rw [hParts, String.toList_ofList]
  | .array items =>
    obtain ⟨values, hValues, hMean⟩ := exists_valuesOfItems? items h
    refine ⟨.array values, ?_, .array hMean⟩
    rw [toDocument, Document.value?, hValues]
    rfl
  | .object members =>
    obtain ⟨values, hValues, hMean⟩ := exists_valuesOfMembers? members h
    refine ⟨.ofMembers values, ?_, .object hMean⟩
    rw [toDocument, Document.value?, hValues]
    rfl

theorem exists_valuesOfItems? (items : List Exact) (h : AreHeld items) :
    ∃ values, Document.valuesOfItems? (itemsToDocuments items) = some values ∧
      MeanItems items values := by
  match items with
  | [] => exact ⟨[], rfl, .nil⟩
  | x :: xs =>
    obtain ⟨j, hFirst, hMeans⟩ := exists_value? x h.1
    obtain ⟨js, hRest, hMean⟩ := exists_valuesOfItems? xs h.2
    refine ⟨j :: js, ?_, .cons hMeans hMean⟩
    rw [itemsToDocuments, Document.valuesOfItems?, hFirst, hRest]

theorem exists_valuesOfMembers? (members : List (List StringPart × Exact))
    (h : MembersAreHeld members) :
    ∃ values, Document.valuesOfMembers? (membersToDocuments members) = some values ∧
      MeanMembers members values := by
  match members with
  | [] => exact ⟨[], rfl, .nil⟩
  | (parts, x) :: ms =>
    obtain ⟨hKey, hValue, hRest⟩ := h
    obtain ⟨cs, hParts⟩ := Option.isSome_iff_exists.mp hKey
    obtain ⟨j, hFirst, hMeans⟩ := exists_value? x hValue
    obtain ⟨values, hValues, hMean⟩ := exists_valuesOfMembers? ms hRest
    refine ⟨(String.ofList cs, j) :: values, ?_, .cons ?_ hMeans hMean⟩
    · rw [membersToDocuments, hParts, Document.valuesOfMembers?.eq_def]
      simp only [hFirst, hValues, Option.map_some]
    · rw [hParts, String.toList_ofList]

end

/-- Whole numbers of 64 bits are held. -/
theorem isHeld_of_isInteger {t : NumberText} (h : t.isInteger = true)
    (hNegative : t.negative = true → 0 < ofDigits t.whole ∧ ofDigits t.whole ≤ 2 ^ 63) :
    (number t).IsHeld := by
  have hWhole : t.fraction = [] ∧ t.exponent = none := by
    simp only [NumberText.isInteger, Bool.and_eq_true, List.isEmpty_iff,
      Option.isNone_iff_eq_none] at h
    exact h.1
  have hValue : t.value = signed t.negative (ofDigits t.whole) := by
    simp only [NumberText.value, NumberText.power, hWhole, List.append_nil]
    norm_num
  rw [IsHeld, hValue]
  cases hSign : t.negative with
  | false =>
    refine ⟨.int (ofDigits t.whole), ?_, ?_⟩
    · rw [NumberText.number?, hSign]
      exact if_pos ⟨h, rfl⟩
    · rw [Number.value_int]
      rfl
  | true =>
    refine ⟨.int (-ofDigits t.whole), ?_, ?_⟩
    · rw [NumberText.number?, hSign, if_neg (fun hOther => by cases hOther.2)]
      exact if_pos ⟨h, hNegative hSign⟩
    · rw [Number.value_int, Int.cast_neg]
      rfl

end Exact

variable {s : String} {x : Exact}

/-- What a text says is read as a value that means it, where there is room for it. -/
theorem Says.exists_readValue? (h : Says s x) (hHeld : x.IsHeld)
    (hDepth : x.depth ≤ Document.maxDepth) : ∃ j, readValue? s = some j ∧ x.Means j := by
  obtain ⟨j, hValue, hMeans⟩ := x.exists_value? hHeld
  refine ⟨j, ?_, hMeans⟩
  rw [Exact.depth] at hDepth
  rw [readValue?, h.read?_eq, Option.bind_some, Document.valueWithin?, Nat.zero_add,
    if_pos hDepth, hValue]

end TableGateway.Json
