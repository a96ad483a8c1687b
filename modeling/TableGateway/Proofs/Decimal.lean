import TableGateway.BoundValue
import TableGateway.Proofs.Number.Decimal
import TableGateway.Proofs.Number.Numeral

/-!
# Decimal literals

A decimal column binds the double that is nearest to what a literal denotes. Literals of at most
fifteen digits are told apart by their doubles; longer ones are not.
-/

namespace TableGateway

open Binary64 (Rounds IsShort IsNormal signed)

namespace Numeral

/-- The number that a decimal denotes, with a sign or without one. -/
inductive Denotes (cs : List Char) : ℚ → Prop
  | mk {negative : Bool} {body : List Char} {digits : Nat} {exponent : Int}
      (hSign : Signed body negative cs) (hDecimal : IsDecimal body digits exponent) :
      Denotes cs (signed negative (digits * 10 ^ exponent))

theorem Denotes.exists_rounds {cs : List Char} {q : ℚ} (h : Denotes cs q) :
    ∃ x, readDouble? cs = some x ∧ Rounds q x := by
  obtain ⟨hSign, hDecimal⟩ := h
  exact ⟨_, readDouble?_eq_some_iff.mpr (.decimal hSign hDecimal), Binary64.rounds_ofDecimal _ _ _⟩

theorem Denotes.ofDigits {ds : List Char} (h : isDigits ds = true) :
    Denotes ds (ofDigits ds : Nat) := by
  obtain ⟨hSome, hDigits⟩ := isDigits_eq_true_iff.mp h
  have hDecimal : IsDecimal (ds ++ ([] ++ [])) (Numeral.ofDigits (ds ++ [])) (0 - 0) :=
    .mk hDigits nofun (by rwa [List.append_nil]) (.inl ⟨rfl, rfl⟩) .none
  rw [List.append_nil, List.append_nil] at hDecimal
  have hSign : Signed ds false ds := .bare fun c hc => by
    have hDigit := hDigits c (List.mem_of_mem_head? hc)
    constructor <;> rintro rfl <;> cases hDigit
  have hDenotes := Denotes.mk hSign hDecimal
  rwa [sub_zero, zpow_zero, mul_one] at hDenotes

end Numeral

namespace BoundValue

variable {column : Column} {s s' : String} {q q' : ℚ}

theorem readLiteral?_decimal (s : String) :
    readLiteral? .decimal s = (Numeral.readDouble? (Text.trim s.toList)).map .double := rfl

/-- A query string and a JSON string of the text bind the double that the number is rounded to. -/
structure BindsDecimal (column : Column) (s : String) (q : ℚ) (x : Binary64) : Prop where
  text : ofText column s = .ok (.double x)
  json : ofJson column (.text s) = .ok (.double x)
  rounds : Rounds q x

theorem exists_bindsDecimal (hType : column.type = .decimal)
    (h : Numeral.Denotes (Text.trim s.toList) q) : ∃ x, BindsDecimal column s q x := by
  obtain ⟨x, hRead, hRounds⟩ := h.exists_rounds
  have hText : ofText column s = .ok (.double x) := by
    rw [ofText, hType, readLiteral?_decimal, hRead, Option.map_some]
  refine ⟨x, hText, ?_, hRounds⟩
  rw [ofJson, if_neg]
  · exact hText
  · rw [hType]
    decide

/-- Decimals are rounded to the nearest doubles: the spellings of one number to one value, and short
decimals of different numbers to different ones. -/
theorem decimals_are_rounded (hType : column.type = .decimal)
    (h : Numeral.Denotes (Text.trim s.toList) q) (h' : Numeral.Denotes (Text.trim s'.toList) q') :
    ∃ x x', BindsDecimal column s q x ∧ BindsDecimal column s' q' x' ∧
      (q = q' → x.toRat = x'.toRat) ∧
      (IsShort q → IsShort q' → IsNormal q → IsNormal q' → q ≠ q' → x.toRat ≠ x'.toRat) := by
  obtain ⟨x, hBinds⟩ := exists_bindsDecimal hType h
  obtain ⟨x', hBinds'⟩ := exists_bindsDecimal hType h'
  refine ⟨x, x', hBinds, hBinds', ?_, hBinds.rounds.toRat_ne hBinds'.rounds⟩
  rintro rfl
  exact hBinds.rounds.toRat_unique hBinds'.rounds

def sampleTotal : Column := { name := "Total", type := .decimal }

theorem denotes_sampleFraction : Numeral.Denotes (Text.trim " -12.50".toList) (-1250 / 100) := by
  have hDigits {ds : List Char} (h : Numeral.isDigits ds = true) : Json.NumberText.IsDigits ds :=
    (Numeral.isDigits_eq_true_iff.mp h).2
  have hDecimal : Numeral.IsDecimal "12.50".toList 1250 (0 - 2) :=
    @Numeral.IsDecimal.mk "12".toList "50".toList ".50".toList [] 0 (hDigits (by decide))
      (hDigits (by decide)) (by decide) (.inr rfl) .none
  have hDenotes := Numeral.Denotes.mk .minus hDecimal
  have hValue : signed true ((1250 : Nat) * 10 ^ (0 - 2 : Int)) = -1250 / 100 := by
    rw [signed, if_pos rfl]
    norm_num
  rwa [hValue] at hDenotes

theorem sampleDecimals_differ :
    ∃ x x', BindsDecimal sampleTotal " -12.50" (-1250 / 100) x ∧
      BindsDecimal sampleTotal "12" (12 : Nat) x' ∧ x.toRat ≠ x'.toRat := by
  have hWhole : Numeral.Denotes (Text.trim "12".toList) (12 : Nat) :=
    .ofDigits (by decide)
  obtain ⟨x, x', hBinds, hBinds', -, hDiffer⟩ :=
    decimals_are_rounded (rfl : sampleTotal.type = .decimal) denotes_sampleFraction hWhole
  have hShort : IsShort (-1250 / 100) := ⟨-1250, -2, by decide, by norm_num⟩
  have hShort' : IsShort (12 : Nat) := ⟨12, 0, by decide, by norm_num⟩
  refine ⟨x, x', hBinds, hBinds', hDiffer hShort hShort' ?_ ?_ (by norm_num)⟩
  · apply Binary64.isNormal_of_one_le <;> norm_num [abs_div]
  · apply Binary64.isNormal_of_one_le <;> norm_num

/-- A double does not tell these two apart. -/
theorem long_decimals_coincide :
    Numeral.Denotes (Text.trim "9007199254740992".toList) (9007199254740992 : Nat) ∧
      Numeral.Denotes (Text.trim "9007199254740993".toList) (9007199254740993 : Nat) ∧
      ofText sampleTotal "9007199254740992" = ofText sampleTotal "9007199254740993" := by
  refine ⟨Numeral.Denotes.ofDigits (by decide), Numeral.Denotes.ofDigits (by decide), ?_⟩
  have hRead : Numeral.readDouble? (Text.trim "9007199254740992".toList) =
      Numeral.readDouble? (Text.trim "9007199254740993".toList) := by
    decide +kernel
  have hSome : (Numeral.readDouble? (Text.trim "9007199254740993".toList)).isSome = true := by
    decide +kernel
  obtain ⟨x, hx⟩ := Option.isSome_iff_exists.mp hSome
  rw [ofText, ofText, sampleTotal, readLiteral?_decimal, readLiteral?_decimal, hRead, hx,
    Option.map_some]

end BoundValue

end TableGateway
