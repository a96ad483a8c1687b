import TableGateway.Json.Token
import TableGateway.Json.Value

/-!
# Strings that are read back

A string is read back from its quoted form, whatever stands behind it. Each character is written so
that it is read as one part.
-/

namespace TableGateway.Json

/-- The part that the written form of a character is read as. -/
def partOf (c : Char) : StringPart :=
  if c < ' ' ∧ c ∉ ['\x08', '\x0c', '\n', '\r', '\t'] then .unit c.toNat else .char c

theorem hexValue?_digitChar : ∀ n < 16, hexValue? (Nat.digitChar n) = some n := by
  decide

theorem hexUnit?_control {c : Char} (h : c < ' ') :
    hexUnit? '0' '0' (Nat.digitChar (c.toNat / 16)) (Nat.digitChar (c.toNat % 16)) =
      some c.toNat := by
  have hBound : c.toNat < 32 := h
  rw [hexUnit?, hexValue?_digitChar _ (by omega), hexValue?_digitChar _ (by omega)]
  change some (((0 * 16 + 0) * 16 + c.toNat / 16) * 16 + c.toNat % 16) = _
  congr 1
  omega

theorem scanString_plain {c : Char} (hQuote : c ≠ '"') (hSlash : c ≠ '\\') (hControl : ¬ c < ' ')
    (rest : List Char) :
    scanString (c :: rest) =
      (scanString rest).map fun found => (.char c :: found.1, found.2) := by
  rw [scanString.eq_def]
  split
  · next h => cases h
  · next h => exact absurd (List.cons.inj h).1 hQuote
  · next h => exact absurd (List.cons.inj h).1 hSlash
  · next h => exact absurd (List.cons.inj h).1 hSlash
  · next h =>
    obtain ⟨rfl, rfl⟩ := List.cons.inj h
    rw [if_neg (not_or.mpr ⟨hControl, hSlash⟩)]
    cases scanString rest <;> rfl

theorem scanString_escaped {e c : Char} (hUnit : e ≠ 'u') (h : unescaped? e = some c)
    (rest : List Char) :
    scanString ('\\' :: e :: rest) =
      (scanString rest).map fun found => (.char c :: found.1, found.2) := by
  rw [scanString.eq_def]
  split
  · next h => cases h
  · next h => cases (List.cons.inj h).1
  · next h => exact absurd (List.cons.inj (List.cons.inj h).2).1 hUnit
  · next h' =>
    obtain ⟨rfl, rfl⟩ := List.cons.inj (List.cons.inj h').2
    rw [h]
    cases scanString rest <;> rfl
  · next hOther h' =>
    obtain ⟨rfl, rfl⟩ := List.cons.inj h'
    exact absurd rfl (hOther _ _ rfl)

theorem scanString_unit {a b c d : Char} {n : Nat} (h : hexUnit? a b c d = some n)
    (rest : List Char) :
    scanString ('\\' :: 'u' :: a :: b :: c :: d :: rest) =
      (scanString rest).map fun found => (.unit n :: found.1, found.2) := by
  rw [scanString, h]
  cases scanString rest <;> rfl

/-- How a character may be written in a string. -/
inductive IsWritten (c : Char) : List Char → Prop
  | escaped {e : Char} (hPrintable : ' ' ≤ e) (hUnit : e ≠ 'u') (hEscape : unescaped? e = some c)
    (hPart : partOf c = .char c) : IsWritten c ['\\', e]
  | unit (hControl : c < ' ') (hPart : partOf c = .unit c.toNat) :
    IsWritten c
      ['\\', 'u', '0', '0', Nat.digitChar (c.toNat / 16), Nat.digitChar (c.toNat % 16)]
  | plain (hQuote : c ≠ '"') (hSlash : c ≠ '\\') (hControl : ¬ c < ' ') : IsWritten c [c]

theorem isWritten_escapeChar (c : Char) : IsWritten c (escapeChar c) := by
  rw [escapeChar]
  split
  · next h =>
    subst h
    exact .escaped (by decide) (by decide) rfl rfl
  split
  · next h =>
    subst h
    exact .escaped (by decide) (by decide) rfl rfl
  split
  · next h =>
    subst h
    exact .escaped (by decide) (by decide) rfl rfl
  split
  · next h =>
    subst h
    exact .escaped (by decide) (by decide) rfl rfl
  split
  · next h =>
    subst h
    exact .escaped (by decide) (by decide) rfl rfl
  split
  · next h =>
    subst h
    exact .escaped (by decide) (by decide) rfl rfl
  split
  · next h =>
    subst h
    exact .escaped (by decide) (by decide) rfl rfl
  split
  · next hControl =>
    refine .unit hControl ?_
    rw [partOf, if_pos ⟨hControl, by simp [*]⟩]
  · next hQuote hSlash _ _ _ _ _ hControl => exact .plain hQuote hSlash hControl

theorem scanString_escapeChar (c : Char) (rest : List Char) :
    scanString (escapeChar c ++ rest) =
      (scanString rest).map fun found => (partOf c :: found.1, found.2) := by
  have hWritten := isWritten_escapeChar c
  generalize escapeChar c = cs at hWritten
  cases hWritten with
  | escaped _ hUnit hEscape hPart =>
    rw [hPart]
    exact scanString_escaped hUnit hEscape rest
  | unit hControl hPart =>
    rw [hPart]
    exact scanString_unit (hexUnit?_control hControl) rest
  | plain hQuote hSlash hControl =>
    have hPart : partOf c = .char c := by
      rw [partOf, if_neg fun h => hControl h.1]
    rw [hPart]
    exact scanString_plain hQuote hSlash hControl rest

theorem scanString_quote (cs rest : List Char) :
    scanString (cs.flatMap escapeChar ++ '"' :: rest) = some (cs.map partOf, rest) := by
  induction cs with
  | nil => rw [List.flatMap_nil, List.nil_append, scanString, List.map_nil]
  | cons c cs ih =>
    rw [List.flatMap_cons, List.append_assoc, scanString_escapeChar, ih]
    rfl

theorem characters?_partOf_cons (c : Char) (parts : List StringPart) :
    characters? (partOf c :: parts) = (characters? parts).map (c :: ·) := by
  rw [partOf]
  split
  · next h =>
    have hBound : c.toNat < 32 := h.1
    have hPlain : ¬ (isLeading c.toNat = true ∨ isTrailing c.toNat = true) := by
      simp only [isLeading, isTrailing, Bool.and_eq_true, decide_eq_true_eq]
      omega
    have hLeading : ¬ isLeading c.toNat = true := fun hTrue => hPlain (.inl hTrue)
    rw [characters?.eq_def]
    split
    · next hEq => cases hEq
    · next hEq => cases (List.cons.inj hEq).1
    · next n m rest hEq =>
      obtain ⟨hUnit, rfl⟩ := List.cons.inj hEq
      cases hUnit
      rw [if_neg fun hPair => hLeading hPair.1, if_neg hPlain, Char.ofNat_toNat]
    · next n rest _ hEq =>
      obtain ⟨hUnit, rfl⟩ := List.cons.inj hEq
      cases hUnit
      rw [if_neg hPlain, Char.ofNat_toNat]
  · rw [characters?]

theorem characters?_map_partOf (cs : List Char) : characters? (cs.map partOf) = some cs := by
  induction cs with
  | nil => rfl
  | cons c cs ih => rw [List.map_cons, characters?_partOf_cons, ih, Option.map_some]

theorem scanToken_quote (s : String) (rest : List Char) :
    scanToken (quote s ++ rest) = some (.text (some s), rest) := by
  rw [quote, List.cons_append, List.cons_append, List.append_assoc, List.singleton_append,
    scanToken, scanString_quote, Option.map_some]
  simp only [characters?_map_partOf, Option.map_some, String.ofList_toList]

end TableGateway.Json
