import TableGateway.Patch.Change
import TableGateway.Proofs.Json.Value

/-!
# JSON in ASCII

A JSON text in which every character beyond ASCII is escaped has the same tokens, so it is read as
the same document. Such characters stand in strings only, where an escape is read as the UTF-16
units of the character.
-/

namespace TableGateway.Json

open PatchOperation (asciiChar unitEscape)

def inAscii (cs : List Char) : List Char := cs.flatMap asciiChar

def IsAscii (c : Char) : Prop := c.toNat < 0x80

instance (c : Char) : Decidable (IsAscii c) := inferInstanceAs (Decidable (c.toNat < 0x80))

theorem asciiChar_of_isAscii {c : Char} (h : IsAscii c) : asciiChar c = [c] := if_pos h

theorem inAscii_cons_of_isAscii {c : Char} (h : IsAscii c) (cs : List Char) :
    inAscii (c :: cs) = c :: inAscii cs := by
  rw [inAscii, List.flatMap_cons, asciiChar_of_isAscii h]
  rfl

theorem unitEscape_eq {n : Nat} (h : n < 0x10000) :
    unitEscape n = ['\\', 'u', Nat.digitChar (n / 4096), Nat.digitChar (n / 256 % 16),
      Nat.digitChar (n / 16 % 16), Nat.digitChar (n % 16)] := by
  have hStep {m : Nat} (hm : 16 ≤ m) :
      Nat.toDigits 16 m = Nat.toDigits 16 (m / 16) ++ [Nat.digitChar (m % 16)] :=
    Nat.toDigits_of_base_le (by decide) hm
  have hLast {m : Nat} (hm : m < 16) : Nat.toDigits 16 m = [Nat.digitChar m] :=
    Nat.toDigits_of_lt_base hm
  have hSquare : n / 16 / 16 = n / 256 := Nat.div_div_eq_div_mul n 16 16
  have hCube : n / 256 / 16 = n / 4096 := Nat.div_div_eq_div_mul n 256 16
  rw [unitEscape]
  by_cases hOne : n < 16
  · have hFront : n / 4096 = 0 ∧ n / 256 % 16 = 0 ∧ n / 16 % 16 = 0 := by omega
    rw [hLast hOne, hFront.1, hFront.2.1, hFront.2.2, Nat.mod_eq_of_lt hOne]
    rfl
  rw [hStep (by omega)]
  by_cases hTwo : n / 16 < 16
  · have hFront : n / 4096 = 0 ∧ n / 256 % 16 = 0 := by omega
    rw [hLast hTwo, hFront.1, hFront.2, Nat.mod_eq_of_lt hTwo]
    rfl
  rw [hStep (by omega), hSquare]
  by_cases hThree : n / 256 < 16
  · have hFront : n / 4096 = 0 := by omega
    rw [hLast hThree, hFront, Nat.mod_eq_of_lt hThree]
    rfl
  rw [hStep (by omega), hCube, hLast (m := n / 4096) (by omega)]
  rfl

theorem hexUnit?_digits {n : Nat} (h : n < 0x10000) :
    hexUnit? (Nat.digitChar (n / 4096)) (Nat.digitChar (n / 256 % 16))
      (Nat.digitChar (n / 16 % 16)) (Nat.digitChar (n % 16)) = some n := by
  rw [hexUnit?, hexValue?_digitChar _ (by omega), hexValue?_digitChar _ (by omega),
    hexValue?_digitChar _ (by omega), hexValue?_digitChar _ (by omega)]
  simp only [Option.some.injEq]
  omega

theorem scanString_unitEscape {n : Nat} (h : n < 0x10000) (rest : List Char) :
    scanString (unitEscape n ++ rest) =
      (scanString rest).map fun found => (.unit n :: found.1, found.2) := by
  rw [unitEscape_eq h]
  exact scanString_unit (hexUnit?_digits h) rest

/-- The parts that a character in ASCII is read as. -/
def unitsOf (c : Char) : List StringPart :=
  let n := c.toNat
  if n < 0x80 then [.char c]
  else if n < 0x10000 then [.unit n]
  else [.unit (0xD800 + (n - 0x10000) / 0x400), .unit (0xDC00 + (n - 0x10000) % 0x400)]

def StringPart.inAscii : StringPart → List StringPart
  | .char c => unitsOf c
  | .unit n => [.unit n]

theorem StringPart.inAscii_of_isAscii {c : Char} (h : IsAscii c) :
    (StringPart.char c).inAscii = [.char c] :=
  if_pos h

theorem isScalar (c : Char) :
    c.toNat < 0xD800 ∨ 0xE000 ≤ c.toNat ∧ c.toNat < 0x110000 := by
  have h := c.valid
  rw [UInt32.isValidChar, Nat.isValidChar] at h
  change c.toNat < 0xd800 ∨ 0xdfff < c.toNat ∧ c.toNat < 0x110000 at h
  omega

theorem scanString_asciiChar {c : Char} (h : ¬ IsAscii c) (rest : List Char) :
    scanString (asciiChar c ++ rest) =
      (scanString rest).map fun found => (unitsOf c ++ found.1, found.2) := by
  have hScalar := isScalar c
  rw [asciiChar, unitsOf]
  simp only [if_neg (show ¬ c.toNat < 0x80 from h)]
  split
  · next hUnit => exact scanString_unitEscape hUnit rest
  · rw [List.append_assoc, scanString_unitEscape (by omega), scanString_unitEscape (by omega),
      Option.map_map]
    rfl

theorem isAscii_of_hexValue? {c : Char} {n : Nat} (h : hexValue? c = some n) : IsAscii c := by
  have hBelow {top : Char} (hTop : IsAscii top) (hc : c ≤ top) : IsAscii c :=
    Nat.lt_of_le_of_lt hc hTop
  rw [hexValue?] at h
  split at h
  · next hDigit => exact hBelow (by decide) hDigit.2
  split at h
  · next hSmall => exact hBelow (by decide) hSmall.2
  split at h
  · next hCapital => exact hBelow (by decide) hCapital.2
  · cases h

theorem isAscii_of_hexUnit? {a b c d : Char} {n : Nat} (h : hexUnit? a b c d = some n) :
    IsAscii a ∧ IsAscii b ∧ IsAscii c ∧ IsAscii d := by
  rw [hexUnit?] at h
  split at h
  · next ha hb hc hd =>
    exact ⟨isAscii_of_hexValue? ha, isAscii_of_hexValue? hb, isAscii_of_hexValue? hc,
      isAscii_of_hexValue? hd⟩
  · cases h

theorem isAscii_of_unescaped? {e c : Char} (h : unescaped? e = some c) :
    e ≠ 'u' ∧ IsAscii e ∧ IsAscii c := by
  rw [unescaped?.eq_def] at h
  split at h
  case h_9 => cases h
  all_goals
    cases h
    decide

/-- A string is read as the units of its characters, and what follows it is in ASCII as well. -/
theorem scanString_inAscii {cs rest : List Char} {parts : List StringPart}
    (h : scanString cs = some (parts, rest)) :
    scanString (inAscii cs) = some (parts.flatMap StringPart.inAscii, inAscii rest) := by
  fun_induction scanString cs generalizing parts rest with
  | case2 after =>
    cases h
    rw [inAscii_cons_of_isAscii (by decide), scanString]
    rfl
  | case3 a b c d cs n parts' after hRest hUnit ih =>
    cases h
    obtain ⟨ha, hb, hc, hd⟩ := isAscii_of_hexUnit? hUnit
    rw [inAscii_cons_of_isAscii (by decide), inAscii_cons_of_isAscii (by decide),
      inAscii_cons_of_isAscii ha, inAscii_cons_of_isAscii hb, inAscii_cons_of_isAscii hc,
      inAscii_cons_of_isAscii hd, scanString_unit hUnit, ih hRest]
    rfl
  | case5 e cs _ c parts' after hRest hEscape ih =>
    cases h
    obtain ⟨hUnit, he, hc⟩ := isAscii_of_unescaped? hEscape
    rw [inAscii_cons_of_isAscii (by decide), inAscii_cons_of_isAscii he,
      scanString_escaped hUnit hEscape, ih hRest, List.flatMap_cons,
      StringPart.inAscii_of_isAscii hc]
    rfl
  | case8 c cs hQuote _ _ hPlain parts' after hRest ih =>
    cases h
    obtain ⟨hControl, hSlash⟩ := not_or.mp hPlain
    by_cases hc : IsAscii c
    · rw [inAscii_cons_of_isAscii hc, scanString_plain hQuote hSlash hControl, ih hRest,
        List.flatMap_cons, StringPart.inAscii_of_isAscii hc]
      rfl
    · rw [inAscii, List.flatMap_cons, scanString_asciiChar hc]
      change (scanString (inAscii cs)).map _ = _
      rw [ih hRest]
      rfl
  | _ => cases h

/-- A unit that is not the first one of a pair. -/
theorem characters?_unit {n : Nat} {parts : List StringPart}
    (h : ∀ m, parts.head? = some (.unit m) → ¬ (isLeading n = true ∧ isTrailing m = true)) :
    characters? (.unit n :: parts) =
      if isLeading n = true ∨ isTrailing n = true then none
      else (characters? parts).map (Char.ofNat n :: ·) := by
  cases parts with
  | nil => simp [characters?]
  | cons part parts =>
    cases part with
    | char c => simp [characters?]
    | unit m => rw [characters?, if_neg (h m rfl)]

theorem characters?_unitsOf (c : Char) (parts : List StringPart) :
    characters? (unitsOf c ++ parts) = (characters? parts).map (c :: ·) := by
  have hScalar := isScalar c
  rw [unitsOf]
  split
  · exact characters?.eq_2 c parts
  split
  · have hLone : ¬ (isLeading c.toNat = true ∨ isTrailing c.toNat = true) := by
      simp only [isLeading, isTrailing, Bool.and_eq_true, decide_eq_true_eq]
      omega
    rw [List.singleton_append, characters?_unit fun m _ hPair => hLone (.inl hPair.1), if_neg hLone,
      Char.ofNat_toNat]
  · have hPair : isLeading (0xD800 + (c.toNat - 0x10000) / 0x400) = true ∧
        isTrailing (0xDC00 + (c.toNat - 0x10000) % 0x400) = true := by
      simp only [isLeading, isTrailing, Bool.and_eq_true, decide_eq_true_eq]
      omega
    have hValue : 0x10000 + (0xD800 + (c.toNat - 0x10000) / 0x400 - 0xD800) * 0x400 +
        (0xDC00 + (c.toNat - 0x10000) % 0x400 - 0xDC00) = c.toNat := by
      omega
    rw [List.cons_append, List.singleton_append, characters?, if_pos hPair, hValue,
      Char.ofNat_toNat]

/-- The units of a character never begin with the second one of a pair. -/
theorem head?_unitsOf {c : Char} {parts : List StringPart} {m : Nat}
    (h : (unitsOf c ++ parts).head? = some (.unit m)) : isTrailing m = false := by
  have hScalar := isScalar c
  have hOther (hm : m < 0xDC00 ∨ 0xE000 ≤ m) : isTrailing m = false := by
    simp only [isTrailing, Bool.and_eq_false_iff, decide_eq_false_iff_not]
    omega
  rw [unitsOf] at h
  split at h
  · cases h
  split at h
  · cases h
    apply hOther
    omega
  · cases h
    apply hOther
    omega

theorem not_pair_inAscii {n : Nat} {parts : List StringPart}
    (h : ∀ m, parts.head? = some (.unit m) → ¬ (isLeading n = true ∧ isTrailing m = true)) (m : Nat)
    (hHead : (parts.flatMap StringPart.inAscii).head? = some (.unit m)) :
    ¬ (isLeading n = true ∧ isTrailing m = true) := by
  cases parts with
  | nil => cases hHead
  | cons part parts =>
    cases part with
    | char c =>
      rintro ⟨-, hTrailing⟩
      rw [List.flatMap_cons, StringPart.inAscii] at hHead
      rw [head?_unitsOf hHead] at hTrailing
      cases hTrailing
    | unit k => exact h m hHead

/-- A string denotes the same characters, or none, when its characters are given by units. -/
theorem characters?_inAscii (parts : List StringPart) :
    characters? (parts.flatMap StringPart.inAscii) = characters? parts := by
  have hNone {parts : List StringPart} {k : Nat}
      (hAlone : ∀ m rest, parts = .unit m :: rest → False) (hk : parts.head? = some (.unit k)) :
      False := by
    obtain ⟨rest, hEq⟩ := List.head?_eq_some_iff.mp hk
    exact hAlone k rest hEq
  fun_induction characters? parts with
  | case1 => rfl
  | case2 c parts ih => rw [List.flatMap_cons, StringPart.inAscii, characters?_unitsOf, ih]
  | case3 n m parts hPair ih =>
    change characters? (.unit n :: .unit m :: parts.flatMap StringPart.inAscii) = _
    rw [characters?, if_pos hPair, ih]
  | case4 n m parts hOther hLone =>
    change characters? (.unit n :: (StringPart.unit m :: parts).flatMap StringPart.inAscii) = _
    rw [characters?_unit (not_pair_inAscii fun k hk => by cases hk; exact hOther), if_pos hLone]
  | case5 n m parts hOther hLone ih =>
    change characters? (.unit n :: (StringPart.unit m :: parts).flatMap StringPart.inAscii) = _
    rw [characters?_unit (not_pair_inAscii fun k hk => by cases hk; exact hOther), if_neg hLone, ih]
  | case6 n parts hAlone hLone =>
    change characters? (.unit n :: parts.flatMap StringPart.inAscii) = _
    rw [characters?_unit (not_pair_inAscii fun k hk => (hNone hAlone hk).elim), if_pos hLone]
  | case7 n parts hAlone hLone ih =>
    change characters? (.unit n :: parts.flatMap StringPart.inAscii) = _
    rw [characters?_unit (not_pair_inAscii fun k hk => (hNone hAlone hk).elim), if_neg hLone, ih]

/-- What is read at the front of a text is also read in ASCII, and the rest is in ASCII as well. -/
def ReadsInAscii {α : Type} (read : List Char → Option (α × List Char)) : Prop :=
  ∀ cs a rest, read cs = some (a, rest) → read (inAscii cs) = some (a, inAscii rest)

theorem head?_inAscii_of_not_isAscii {c : Char} (h : ¬ IsAscii c) (cs : List Char) :
    (inAscii (c :: cs)).head? = some '\\' := by
  have hLarge : ¬ c.toNat < 0x80 := h
  rw [inAscii, List.flatMap_cons, asciiChar]
  simp only [if_neg hLarge]
  split <;> rfl

theorem head?_inAscii_iff {x : Char} (hx : IsAscii x) (hSlash : x ≠ '\\') (cs : List Char) :
    (inAscii cs).head? = some x ↔ cs.head? = some x := by
  cases cs with
  | nil => rfl
  | cons c cs =>
    by_cases hc : IsAscii c
    · rw [inAscii_cons_of_isAscii hc]
      rfl
    · have hNe : c ≠ x := fun hEq => hc (hEq ▸ hx)
      simp [head?_inAscii_of_not_isAscii hc, hNe, hSlash.symm]

theorem tail_inAscii {cs : List Char} {x : Char} (hx : IsAscii x) (h : cs.head? = some x) :
    (inAscii cs).tail = inAscii cs.tail := by
  obtain ⟨rest, rfl⟩ := List.head?_eq_some_iff.mp h
  rw [inAscii_cons_of_isAscii hx]
  rfl

theorem isAscii_of_isDigit {c : Char} (h : c.isDigit = true) : IsAscii c := by
  have hBound : c.toNat ≤ 57 := (Char.isDigit_iff_toNat.mp h).2
  exact Nat.lt_of_le_of_lt hBound (by decide)

theorem splitDigits_inAscii (cs : List Char) :
    Numeral.splitDigits (inAscii cs) =
      ((Numeral.splitDigits cs).1, inAscii (Numeral.splitDigits cs).2) := by
  rw [Numeral.splitDigits, Numeral.splitDigits]
  induction cs with
  | nil => rfl
  | cons c cs ih =>
    by_cases hDigit : c.isDigit = true
    · rw [Prod.mk.injEq] at ih
      simp [inAscii_cons_of_isAscii (isAscii_of_isDigit hDigit), hDigit, ih]
    · have hStops : Text.Stops Char.isDigit (inAscii (c :: cs)) := by
        intro x hx
        by_cases hc : IsAscii c
        · rw [inAscii_cons_of_isAscii hc] at hx
          cases hx
          exact Bool.eq_false_iff.mpr hDigit
        · rw [head?_inAscii_of_not_isAscii hc] at hx
          cases hx
          decide
      have hEmpty : ∀ x ∈ [], Char.isDigit x = true := List.forall_mem_nil _
      have hTake := @Text.takeWhile_append_of_stops Char Char.isDigit [] _ hEmpty hStops
      have hDrop := @Text.dropWhile_append_of_stops Char Char.isDigit [] _ hEmpty hStops
      rw [List.nil_append] at hTake hDrop
      simp [hTake, hDrop, hDigit]

theorem readsInAscii_digits? : ReadsInAscii Numeral.digits? := by
  intro cs ds rest h
  rw [Numeral.digits?] at h ⊢
  rw [splitDigits_inAscii]
  split at h
  · cases h
  · next hSome =>
    have hParts : Numeral.splitDigits cs = (ds, rest) := Option.some.inj h
    rw [if_neg hSome, hParts]

theorem readsInAscii_scanWhole : ReadsInAscii scanWhole := by
  intro cs ds rest h
  rw [scanWhole] at h ⊢
  split at h
  · cases h
  · next hShort =>
    rw [readsInAscii_digits? cs ds rest h]
    split
    · next hEq =>
      cases hEq
      exact (hShort _ _ _ h).elim
    · rfl

theorem readsInAscii_scanFraction : ReadsInAscii scanFraction := by
  intro cs ds rest h
  have hHead := head?_inAscii_iff (x := '.') (by decide) (by decide) cs
  rw [scanFraction] at h ⊢
  split at h
  · next hPoint =>
    rw [if_pos (hHead.mpr hPoint), tail_inAscii (by decide) hPoint]
    exact readsInAscii_digits? _ _ _ h
  · next hPoint =>
    cases h
    rw [if_neg fun hFound => hPoint (hHead.mp hFound)]

theorem takeSign_eq (cs : List Char) :
    Numeral.takeSign cs =
      if cs.head? = some '-' then (true, cs.tail)
      else if cs.head? = some '+' then (false, cs.tail) else (false, cs) := by
  cases cs with
  | nil => rfl
  | cons c cs =>
    by_cases hMinus : c = '-'
    · subst hMinus
      rfl
    by_cases hPlus : c = '+'
    · subst hPlus
      rfl
    · simp [Numeral.takeSign, hMinus, hPlus]

theorem takeSign_inAscii (cs : List Char) :
    Numeral.takeSign (inAscii cs) =
      ((Numeral.takeSign cs).1, inAscii (Numeral.takeSign cs).2) := by
  have hMinus := head?_inAscii_iff (x := '-') (by decide) (by decide) cs
  have hPlus := head?_inAscii_iff (x := '+') (by decide) (by decide) cs
  simp only [takeSign_eq, hMinus, hPlus]
  split
  · next hHead => rw [tail_inAscii (by decide) hHead]
  · split
    · next hHead => rw [tail_inAscii (by decide) hHead]
    · rfl

theorem readsInAscii_scanExponent : ReadsInAscii scanExponent := by
  intro cs e rest h
  have hHead : ((inAscii cs).head? = some 'e' ∨ (inAscii cs).head? = some 'E') ↔
      (cs.head? = some 'e' ∨ cs.head? = some 'E') :=
    or_congr (head?_inAscii_iff (by decide) (by decide) cs)
      (head?_inAscii_iff (by decide) (by decide) cs)
  rw [scanExponent] at h ⊢
  split at h
  · next hLetter =>
    have hTail : (inAscii cs).tail = inAscii cs.tail :=
      hLetter.elim (tail_inAscii (by decide)) (tail_inAscii (by decide))
    rw [if_pos (hHead.mpr hLetter), hTail, takeSign_inAscii]
    generalize Numeral.takeSign cs.tail = signed at h ⊢
    obtain ⟨⟨ds, after⟩, hDigits, hEq⟩ := Option.map_eq_some_iff.mp h
    cases hEq
    simp only [readsInAscii_digits? _ _ _ hDigits, Option.map_some]
  · next hLetter =>
    cases h
    rw [if_neg fun hFound => hLetter (hHead.mp hFound)]

theorem readsInAscii_scanUnsigned (negative : Bool) : ReadsInAscii (scanUnsigned negative) := by
  intro cs t rest h
  simp only [scanUnsigned, Option.bind_eq_bind, Option.bind_eq_some_iff] at h
  obtain ⟨⟨whole, _⟩, hWhole, ⟨fraction, _⟩, hFraction, ⟨exponent, _⟩, hExponent, hEq⟩ := h
  cases hEq
  simp only [scanUnsigned, Option.bind_eq_bind, readsInAscii_scanWhole _ _ _ hWhole,
    readsInAscii_scanFraction _ _ _ hFraction, readsInAscii_scanExponent _ _ _ hExponent,
    Option.bind_some]

theorem readsInAscii_scanNumber : ReadsInAscii scanNumber := by
  intro cs t rest h
  have hHead := head?_inAscii_iff (x := '-') (by decide) (by decide) cs
  rw [NumberText.scanNumber_eq] at h ⊢
  split at h
  · next hMinus =>
    rw [if_pos (hHead.mpr hMinus), tail_inAscii (by decide) hMinus]
    exact readsInAscii_scanUnsigned true _ _ _ h
  · next hMinus =>
    rw [if_neg fun hFound => hMinus (hHead.mp hFound)]
    exact readsInAscii_scanUnsigned false _ _ _ h

theorem readsInAscii_scanToken : ReadsInAscii scanToken := by
  intro cs t rest h
  rw [scanToken.eq_def] at h
  split at h
  case h_10 cs =>
    obtain ⟨⟨parts, after⟩, hString, hEq⟩ := Option.map_eq_some_iff.mp h
    cases hEq
    rw [inAscii_cons_of_isAscii (by decide), scanToken, scanString_inAscii hString]
    simp only [Option.map_some, characters?_inAscii]
  case h_11 =>
    obtain ⟨⟨text, after⟩, hNumber, hEq⟩ := Option.map_eq_some_iff.mp h
    cases hEq
    exact NumberText.scanToken_of_scanNumber (readsInAscii_scanNumber _ _ _ hNumber)
  all_goals
    cases h
    simp (disch := decide) only [inAscii_cons_of_isAscii]
    rw [scanToken]

theorem isAscii_of_isSpace {c : Char} (h : isSpace c = true) : IsAscii c := by
  simp only [isSpace, Bool.or_eq_true, decide_eq_true_eq] at h
  rcases h with ((rfl | rfl) | rfl) | rfl <;> decide

/-- As long as a token can be read everywhere, the tokens stay the same. -/
theorem tokens_inAscii {cs : List Char} (h : .bad ∉ tokens cs) :
    tokens (inAscii cs) = tokens cs := by
  induction hLength : cs.length using Nat.strongRecOn generalizing cs with
  | ind n ih =>
    cases cs with
    | nil => rfl
    | cons c cs =>
      rw [tokens_cons] at h ⊢
      split at h
      · next hSpace =>
        have hShorter : cs.length < n := hLength ▸ Nat.lt_succ_self _
        rw [if_pos hSpace, inAscii_cons_of_isAscii (isAscii_of_isSpace hSpace), tokens_cons,
          if_pos hSpace]
        exact ih cs.length hShorter h rfl
      · next hSpace =>
        rw [if_neg hSpace]
        cases hScan : scanToken (c :: cs) with
        | none =>
          rw [hScan] at h
          exact absurd List.mem_cons_self h
        | some found =>
          obtain ⟨t, after⟩ := found
          have hShorter : after.length < n := hLength ▸ length_scanToken hScan
          have hHead : ∀ x ∈ (inAscii (c :: cs)).head?, isSpace x = false := by
            intro x hx
            by_cases hc : IsAscii c
            · rw [inAscii_cons_of_isAscii hc] at hx
              cases hx
              exact Bool.eq_false_iff.mpr hSpace
            · rw [head?_inAscii_of_not_isAscii hc] at hx
              cases hx
              decide
          rw [hScan] at h
          have hAfter := ih after.length hShorter (fun hBad => h (List.mem_cons_of_mem t hBad)) rfl
          have hToken := readsInAscii_scanToken _ _ _ hScan
          rw [Document.tokens_of_scanToken hToken hHead, hAfter]
          rfl

namespace Document

mutual

/-- What a document is read from has no bad tokens. -/
theorem not_bad_of_yields (d : Document) {ts rest : List Token} (h : Yields ts d rest)
    (hRest : .bad ∉ rest) : .bad ∉ ts := by
  have hCons {t : Token} {us : List Token} (ht : t ≠ .bad) (hus : .bad ∉ us) : .bad ∉ t :: us :=
    List.not_mem_cons_of_ne_of_not_mem ht.symm hus
  match d with
  | .array items =>
    obtain ⟨t, rfl, hToken⟩ | ⟨rfl, -⟩ | ⟨inner, found, rfl, hItems, hEq⟩ | ⟨-, hEq⟩ |
      ⟨inner, members, -, -, hEq⟩ := h.cases
    · exact hCons (by rintro rfl; cases hToken) hRest
    · exact hCons nofun (hCons nofun hRest)
    · cases hEq
      exact hCons nofun (not_bad_of_yieldsItems items hItems hRest)
    · cases hEq
    · cases hEq
  | .object members =>
    obtain ⟨t, rfl, hToken⟩ | ⟨-, hEq⟩ | ⟨inner, items, -, -, hEq⟩ | ⟨rfl, -⟩ |
      ⟨inner, found, rfl, hMembers, hEq⟩ := h.cases
    · exact hCons (by rintro rfl; cases hToken) hRest
    · cases hEq
    · cases hEq
    · exact hCons nofun (hCons nofun hRest)
    · cases hEq
      exact hCons nofun (not_bad_of_yieldsMembers members hMembers hRest)
  | .null | .bool _ | .number _ | .text _ | .void =>
    obtain ⟨t, rfl, hToken⟩ | ⟨-, hEq⟩ | ⟨inner, items, -, -, hEq⟩ | ⟨-, hEq⟩ |
      ⟨inner, members, -, -, hEq⟩ := h.cases
    · exact hCons (by rintro rfl; cases hToken) hRest
    all_goals cases hEq

theorem not_bad_of_yieldsItems (items : List Document) {ts rest : List Token}
    (h : YieldsItems ts items rest) (hRest : .bad ∉ rest) : .bad ∉ ts := by
  match items with
  | [] =>
    obtain ⟨item, -, hEq⟩ | ⟨item, next, more, -, -, hEq⟩ := h.cases <;> cases hEq
  | item :: more =>
    obtain ⟨found, hItem, hEq⟩ | ⟨found, next, others, hItem, hMore, hEq⟩ := h.cases
    · cases hEq
      exact not_bad_of_yields item hItem
        (List.not_mem_cons_of_ne_of_not_mem nofun hRest)
    · cases hEq
      exact not_bad_of_yields item hItem
        (List.not_mem_cons_of_ne_of_not_mem nofun (not_bad_of_yieldsItems more hMore hRest))

theorem not_bad_of_yieldsMembers (members : List (Option String × Document))
    {ts rest : List Token} (h : YieldsMembers ts members rest) (hRest : .bad ∉ rest) :
    .bad ∉ ts := by
  have hCons {t : Token} {us : List Token} (ht : t ≠ .bad) (hus : .bad ∉ us) : .bad ∉ t :: us :=
    List.not_mem_cons_of_ne_of_not_mem ht.symm hus
  match members with
  | [] =>
    obtain ⟨key, inner, value, -, ⟨-, hEq⟩ | ⟨next, more, -, -, hEq⟩⟩ := h.cases <;> cases hEq
  | (name, d) :: more =>
    obtain ⟨key, inner, value, rfl, hRead⟩ := h.cases
    refine hCons nofun (hCons nofun ?_)
    obtain ⟨hValue, hEq⟩ | ⟨next, others, hValue, hMore, hEq⟩ := hRead
    · cases hEq
      exact not_bad_of_yields d hValue (hCons nofun hRest)
    · cases hEq
      exact not_bad_of_yields d hValue (hCons nofun (not_bad_of_yieldsMembers more hMore hRest))

end

/-- A text that is read as a document is read as the same document in ASCII. -/
theorem read?_inAscii {cs : List Char} {d : Document} (h : read? cs = some d) :
    read? (inAscii cs) = some d := by
  have hYields := read?_eq_some_iff.mp h
  have hTokens := tokens_inAscii (not_bad_of_yields d hYields List.not_mem_nil)
  rw [read?_eq_some_iff, hTokens]
  exact hYields

/-- A written document has the same value in ASCII. -/
theorem readValue?_inAscii {d : Document} (h : d.Denotes) :
    readValue? (String.ofList (inAscii d.write)) = readValue? d.toText := by
  have hRead := read?_write h
  rw [readValue?, readValue?, toText, String.toList_ofList, String.toList_ofList, hRead,
    read?_inAscii hRead]

theorem isSome_readValue?_toText {d : Document} (h : d.Denotes) (hShallow : d.depth ≤ maxDepth) :
    (readValue? d.toText).isSome = true := by
  rw [readValue?_toText h, if_pos hShallow]
  exact isSome_value?_reread d h

end Document

/-- No control character is among them, except for the one that comes last in ASCII. -/
def IsPrintable (cs : List Char) : Prop := ∀ c ∈ cs, ' ' ≤ c

instance (cs : List Char) : Decidable (IsPrintable cs) := List.decidableBAll (' ' ≤ ·) cs

theorem isPrintable_nil : IsPrintable [] := List.forall_mem_nil _

theorem isPrintable_cons {c : Char} {cs : List Char} :
    IsPrintable (c :: cs) ↔ ' ' ≤ c ∧ IsPrintable cs :=
  List.forall_mem_cons

theorem isPrintable_append {a b : List Char} :
    IsPrintable (a ++ b) ↔ IsPrintable a ∧ IsPrintable b :=
  List.forall_mem_append

theorem isPrintable_digitChar : ∀ n < 16,
    ' ' ≤ Nat.digitChar n ∧ IsAscii (Nat.digitChar n) ∧ Nat.digitChar n ≠ '\x7f' := by
  decide

/-- What a character becomes is itself, or else an escape. -/
theorem mem_asciiChar {x c : Char} (h : x ∈ asciiChar c) :
    (x = c ∧ IsAscii c) ∨ (' ' ≤ x ∧ IsAscii x ∧ x ≠ '\x7f') := by
  have hEscape {n : Nat} (hn : n < 0x10000) (hx : x ∈ unitEscape n) :
      ' ' ≤ x ∧ IsAscii x ∧ x ≠ '\x7f' := by
    rw [unitEscape_eq hn] at hx
    simp only [List.mem_cons, List.not_mem_nil, or_false] at hx
    rcases hx with rfl | rfl | rfl | rfl | rfl | rfl
    · decide
    · decide
    all_goals exact isPrintable_digitChar _ (by omega)
  have hScalar := isScalar c
  rw [asciiChar] at h
  simp only at h
  split at h
  · next hAscii =>
    obtain rfl := List.mem_singleton.mp h
    exact .inl ⟨rfl, hAscii⟩
  split at h
  · next hUnit => exact .inr (hEscape hUnit h)
  · exact .inr ((List.mem_append.mp h).elim (hEscape (by omega)) (hEscape (by omega)))

theorem isAscii_of_mem_inAscii {x : Char} {cs : List Char} (h : x ∈ inAscii cs) : IsAscii x := by
  obtain ⟨c, -, hx⟩ := List.mem_flatMap.mp h
  obtain ⟨rfl, hAscii⟩ | ⟨-, hAscii, -⟩ := mem_asciiChar hx <;> exact hAscii

theorem isPrintable_inAscii {cs : List Char} (h : IsPrintable cs) : IsPrintable (inAscii cs) := by
  intro x hx
  obtain ⟨c, hc, hx⟩ := List.mem_flatMap.mp hx
  obtain ⟨rfl, -⟩ | ⟨hPrintable, -⟩ := mem_asciiChar hx
  · exact h _ hc
  · exact hPrintable

theorem delete_mem_inAscii_iff {cs : List Char} : '\x7f' ∈ inAscii cs ↔ '\x7f' ∈ cs := by
  constructor
  · intro h
    obtain ⟨c, hc, hx⟩ := List.mem_flatMap.mp h
    obtain ⟨rfl, -⟩ | ⟨-, -, hOther⟩ := mem_asciiChar hx
    · exact hc
    · exact absurd rfl hOther
  · intro h
    refine List.mem_flatMap.mpr ⟨'\x7f', h, ?_⟩
    rw [asciiChar_of_isAscii (by decide)]
    exact List.mem_cons_self

theorem isPrintable_escapeChar (c : Char) : IsPrintable (escapeChar c) := by
  have hWritten := isWritten_escapeChar c
  generalize escapeChar c = cs at hWritten
  cases hWritten with
  | escaped hPrintable =>
    simp only [isPrintable_cons, hPrintable, isPrintable_nil, and_true]
    decide
  | unit hControl =>
    have hBound : c.toNat < 32 := hControl
    have hHigh := (isPrintable_digitChar (c.toNat / 16) (by omega)).1
    have hLow := (isPrintable_digitChar (c.toNat % 16) (by omega)).1
    simp only [isPrintable_cons, hHigh, hLow, isPrintable_nil, and_true]
    decide
  | plain _ _ hControl => exact isPrintable_cons.mpr ⟨Char.not_lt.mp hControl, isPrintable_nil⟩

theorem isPrintable_digits {ds : List Char} (h : NumberText.IsDigits ds) : IsPrintable ds := by
  intro c hc
  have hDigit : 48 ≤ c.toNat := (Char.isDigit_iff_toNat.mp (h c hc)).1
  exact Nat.le_trans (by decide : 32 ≤ 48) hDigit

theorem isPrintable_quote (s : String) : IsPrintable (quote s) := by
  refine isPrintable_cons.mpr ⟨by decide, isPrintable_append.mpr ⟨?_, ?_⟩⟩
  · intro x hx
    obtain ⟨c, -, hx⟩ := List.mem_flatMap.mp hx
    exact isPrintable_escapeChar c x hx
  · exact isPrintable_cons.mpr ⟨by decide, isPrintable_nil⟩

theorem isPrintable_number (n : Number) : IsPrintable n.write := by
  have h := NumberText.wellFormed_ofNumber n
  rw [← NumberText.write_ofNumber]
  generalize NumberText.ofNumber n = t at h
  have hFraction : IsPrintable (NumberText.writeFraction t.fraction) := by
    have hDigits := isPrintable_digits h.fraction
    cases hEq : t.fraction with
    | nil => exact isPrintable_nil
    | cons c cs =>
      rw [hEq] at hDigits
      exact isPrintable_cons.mpr ⟨by decide, hDigits⟩
  have hExponent : IsPrintable (NumberText.writeExponent t.exponent) := by
    cases hEq : t.exponent with
    | none => exact isPrintable_nil
    | some e =>
      obtain ⟨negative, ds⟩ := e
      have hDigits := isPrintable_digits (h.exponent _ (Option.mem_def.mpr hEq)).2
      refine isPrintable_cons.mpr ⟨by decide, isPrintable_cons.mpr ⟨?_, hDigits⟩⟩
      cases negative <;> decide
  have hUnsigned : IsPrintable t.writeUnsigned :=
    isPrintable_append.mpr
      ⟨isPrintable_digits h.whole, isPrintable_append.mpr ⟨hFraction, hExponent⟩⟩
  rw [NumberText.write]
  split
  · exact isPrintable_cons.mpr ⟨by decide, hUnsigned⟩
  · exact hUnsigned

theorem isPrintable_listed {α : Type} {f : α → List Char} {xs : List α}
    (h : ∀ x ∈ xs, IsPrintable (f x)) : IsPrintable (xs.flatMap fun x => ',' :: f x) := by
  intro c hc
  obtain ⟨x, hx, hc⟩ := List.mem_flatMap.mp hc
  exact isPrintable_cons.mpr ⟨by decide, h x hx⟩ c hc

theorem isPrintable_brackets {xs : List (List Char)} (h : ∀ x ∈ xs, IsPrintable x) :
    IsPrintable (brackets xs) := by
  have hEnd : IsPrintable [']'] := isPrintable_cons.mpr ⟨by decide, isPrintable_nil⟩
  cases xs with
  | nil => exact isPrintable_cons.mpr ⟨by decide, hEnd⟩
  | cons x xs =>
    rw [List.forall_mem_cons] at h
    refine isPrintable_append.mpr ⟨isPrintable_append.mpr ⟨?_, isPrintable_listed h.2⟩, hEnd⟩
    exact isPrintable_cons.mpr ⟨by decide, h.1⟩

theorem isPrintable_braces {ms : List (String × List Char)} (h : ∀ m ∈ ms, IsPrintable m.2) :
    IsPrintable (braces ms) := by
  have hEnd : IsPrintable ['\x7d'] := isPrintable_cons.mpr ⟨by decide, isPrintable_nil⟩
  have hMember : ∀ m ∈ ms, IsPrintable (writeMember m) := fun m hm =>
    isPrintable_append.mpr ⟨isPrintable_quote m.1, isPrintable_cons.mpr ⟨by decide, h m hm⟩⟩
  cases ms with
  | nil => exact isPrintable_cons.mpr ⟨by decide, hEnd⟩
  | cons m ms =>
    rw [List.forall_mem_cons] at hMember
    refine isPrintable_append.mpr
      ⟨isPrintable_append.mpr ⟨?_, isPrintable_listed hMember.2⟩, hEnd⟩
    exact isPrintable_cons.mpr ⟨by decide, hMember.1⟩

namespace Document

mutual

theorem isPrintable_write (d : Document) : IsPrintable d.write := by
  match d with
  | .null | .bool true | .bool false | .void => decide
  | .number n => exact isPrintable_number n
  | .text s => exact isPrintable_quote s
  | .array items => exact isPrintable_brackets (isPrintable_writeItems items)
  | .object members => exact isPrintable_braces (isPrintable_writeMembers members)

theorem isPrintable_writeItems (items : List Document) :
    ∀ x ∈ writeItems items, IsPrintable x := by
  match items with
  | [] => exact nofun
  | d :: ds => exact List.forall_mem_cons.mpr ⟨isPrintable_write d, isPrintable_writeItems ds⟩

theorem isPrintable_writeMembers (members : List (Option String × Document)) :
    ∀ m ∈ writeMembers members, IsPrintable m.2 := by
  match members with
  | [] => exact nofun
  | (_, d) :: ms =>
    exact List.forall_mem_cons.mpr ⟨isPrintable_write d, isPrintable_writeMembers ms⟩

end

end Document

end TableGateway.Json
