import TableGateway.Json.Token
import TableGateway.Proofs.Number.Scaled
import TableGateway.Proofs.Text.Run

/-!
# Numbers that are read back

A number is written as a text of the grammar, which is cut off where no digit, point or exponent
follows. An integer of 64 bits is read back as it was. A finite double is read back as a double,
though not always as the same one.
-/

namespace TableGateway.Json

/-- The characters that go on with a number. -/
def isNumberChar (c : Char) : Bool := c.isDigit || c = '.' || c = 'e' || c = 'E'

namespace NumberText

variable {t : NumberText} {e : Option (Bool × List Char)} {rest ds cs : List Char}

def writeFraction : List Char → List Char
  | [] => []
  | ds => '.' :: ds

def writeExponent : Option (Bool × List Char) → List Char
  | none => []
  | some (negative, ds) => 'e' :: (if negative then '-' else '+') :: ds

def writeUnsigned (t : NumberText) : List Char :=
  t.whole ++ (writeFraction t.fraction ++ writeExponent t.exponent)

def write (t : NumberText) : List Char :=
  if t.negative then '-' :: t.writeUnsigned else t.writeUnsigned

def IsDigits (ds : List Char) : Prop := ∀ c ∈ ds, c.isDigit = true

/-- What the grammar asks of a number. -/
structure WellFormed (t : NumberText) : Prop where
  whole_ne_nil : t.whole ≠ []
  whole : IsDigits t.whole
  noLeadingZero : t.whole.head? = some '0' → t.whole = ['0']
  fraction : IsDigits t.fraction
  exponent : ∀ e ∈ t.exponent, e.2 ≠ [] ∧ IsDigits e.2

/-- The texts of an exponent part: a letter of either case and digits with a sign or without one. -/
inductive SpellsExponent : Option (Bool × List Char) → List Char → Prop
  | none : SpellsExponent none []
  | some {letter : Char} {negative : Bool} {ds cs : List Char}
      (hLetter : letter = 'e' ∨ letter = 'E') (hSign : Numeral.Signed ds negative cs) :
      SpellsExponent (some (negative, ds)) (letter :: cs)

/-- The texts of a number. -/
def Spells (t : NumberText) (cs : List Char) : Prop :=
  ∃ exponent, SpellsExponent t.exponent exponent ∧
    cs = (if t.negative then ['-'] else []) ++
      (t.whole ++ (writeFraction t.fraction ++ exponent))

theorem spellsExponent_write (e : Option (Bool × List Char)) :
    SpellsExponent e (writeExponent e) := by
  rcases e with _ | ⟨_ | _, ds⟩
  · exact .none
  · exact .some (.inl rfl) .plus
  · exact .some (.inl rfl) .minus

theorem spells_write (t : NumberText) : t.Spells t.write := by
  refine ⟨writeExponent t.exponent, spellsExponent_write t.exponent, ?_⟩
  rw [write, writeUnsigned]
  split <;> rfl

theorem digits?_append (hSome : ds ≠ []) (hDigits : IsDigits ds)
    (hStops : Text.Stops Char.isDigit rest) : Numeral.digits? (ds ++ rest) = some (ds, rest) := by
  rw [Numeral.digits?, Numeral.splitDigits, Text.takeWhile_append_of_stops hDigits hStops,
    Text.dropWhile_append_of_stops hDigits hStops, if_neg hSome]

theorem stops_isDigit (h : Text.Stops isNumberChar rest) : Text.Stops Char.isDigit rest := by
  intro c hc
  have hOther := h c hc
  simp only [isNumberChar, Bool.or_eq_false_iff] at hOther
  exact hOther.1.1.1

theorem head?_ne_of_stops {c : Char} (h : Text.Stops isNumberChar rest)
    (hNumber : isNumberChar c = true) : rest.head? ≠ some c := by
  intro hHead
  rw [h c hHead] at hNumber
  cases hNumber

theorem takeSign_append {negative : Bool} (hSome : ds ≠ [])
    (hSign : Numeral.Signed ds negative cs) :
    Numeral.takeSign (cs ++ rest) = (negative, ds ++ rest) := by
  rw [Numeral.takeSign_eq_iff]
  cases hSign with
  | minus => exact .minus
  | plus => exact .plus
  | bare hBare =>
    obtain ⟨d, ds, rfl⟩ := List.exists_cons_of_ne_nil hSome
    exact .bare hBare

theorem scanExponent_append (hText : SpellsExponent e cs)
    (hDigits : ∀ x ∈ e, x.2 ≠ [] ∧ IsDigits x.2) (hStops : Text.Stops isNumberChar rest) :
    scanExponent (cs ++ rest) = some (e, rest) := by
  cases hText with
  | none =>
    have hNone : ¬ (rest.head? = some 'e' ∨ rest.head? = some 'E') :=
      not_or.mpr ⟨head?_ne_of_stops hStops (by decide), head?_ne_of_stops hStops (by decide)⟩
    rw [List.nil_append, scanExponent, if_neg hNone]
  | some hLetter hSign =>
    obtain ⟨hSome, hAll⟩ := hDigits _ rfl
    rw [List.cons_append, scanExponent, if_pos (by simpa using hLetter), List.tail_cons]
    simp only [takeSign_append hSome hSign, digits?_append hSome hAll (stops_isDigit hStops),
      Option.map_some]

theorem stops_exponent {p : Char → Bool} (hText : SpellsExponent e cs)
    (hLetters : p 'e' = false ∧ p 'E' = false) (hStops : Text.Stops p rest) :
    Text.Stops p (cs ++ rest) := by
  cases hText with
  | none => exact hStops
  | some hLetter =>
    intro c hc
    cases hc
    rcases hLetter with rfl | rfl
    · exact hLetters.1
    · exact hLetters.2

theorem scanFraction_append (hText : SpellsExponent e cs) (hDigits : IsDigits ds)
    (hStops : Text.Stops isNumberChar rest) :
    scanFraction (writeFraction ds ++ (cs ++ rest)) = some (ds, cs ++ rest) := by
  cases ds with
  | nil =>
    have hPoint : (cs ++ rest).head? ≠ some '.' := by
      intro hHead
      have hStopsPoint : Text.Stops (· = '.') rest := by
        intro c hc
        have hOther := hStops c hc
        simp only [isNumberChar, Bool.or_eq_false_iff] at hOther
        exact hOther.1.1.2
      cases stops_exponent hText (by decide) hStopsPoint '.' hHead
    rw [writeFraction, List.nil_append, scanFraction, if_neg hPoint]
  | cons d ds =>
    have hAfter := stops_exponent hText (by decide) (stops_isDigit hStops)
    rw [writeFraction, List.cons_append, scanFraction, if_pos List.head?_cons, List.tail_cons,
      digits?_append (List.cons_ne_nil d ds) hDigits hAfter]
    · exact List.cons_ne_nil d ds

theorem stops_fraction (hText : SpellsExponent e cs) (ds : List Char)
    (hStops : Text.Stops isNumberChar rest) :
    Text.Stops Char.isDigit (writeFraction ds ++ (cs ++ rest)) := by
  cases ds with
  | nil =>
    rw [writeFraction, List.nil_append]
    exact stops_exponent hText (by decide) (stops_isDigit hStops)
  | cons d ds =>
    intro c hc
    cases hc
    decide

theorem scanUnsigned_append (h : t.WellFormed) (hText : SpellsExponent t.exponent cs)
    (hStops : Text.Stops isNumberChar rest) :
    scanUnsigned t.negative (t.whole ++ (writeFraction t.fraction ++ (cs ++ rest))) =
      some (t, rest) := by
  have hWhole : scanWhole (t.whole ++ (writeFraction t.fraction ++ (cs ++ rest))) =
      some (t.whole, writeFraction t.fraction ++ (cs ++ rest)) := by
    rw [scanWhole,
      digits?_append h.whole_ne_nil h.whole (stops_fraction hText t.fraction hStops)]
    split
    · next hZero =>
      have hParts := (Prod.mk.inj (Option.some.inj hZero)).1
      have hOne := h.noLeadingZero (by rw [hParts]; rfl)
      rw [hParts] at hOne
      cases hOne
    · rfl
  rw [scanUnsigned, hWhole]
  simp only [Option.bind_eq_bind, Option.bind_some, scanFraction_append hText h.fraction hStops,
    scanExponent_append hText h.exponent hStops]

theorem scanNumber_append (h : t.WellFormed) (hText : t.Spells cs)
    (hStops : Text.Stops isNumberChar rest) : scanNumber (cs ++ rest) = some (t, rest) := by
  obtain ⟨exponent, hExponent, rfl⟩ := hText
  have hScanned := scanUnsigned_append h hExponent hStops
  simp only [List.append_assoc]
  split
  · next hNegative =>
    rw [hNegative] at hScanned
    exact hScanned
  · next hNegative =>
    rw [Bool.not_eq_true] at hNegative
    rw [hNegative] at hScanned
    obtain ⟨c, whole, hWhole⟩ := List.exists_cons_of_ne_nil h.whole_ne_nil
    have hDigit : c.isDigit = true := h.whole c (by rw [hWhole]; exact List.mem_cons_self)
    rw [hWhole, List.cons_append] at hScanned ⊢
    rw [List.nil_append, scanNumber.eq_def]
    split
    · next hMinus =>
      rw [(List.cons.inj hMinus).1] at hDigit
      cases hDigit
    · exact hScanned

theorem scanNumber_eq (cs : List Char) :
    scanNumber cs =
      if cs.head? = some '-' then scanUnsigned true cs.tail else scanUnsigned false cs := by
  cases cs with
  | nil => rfl
  | cons c cs =>
    by_cases hMinus : c = '-'
    · subst hMinus
      rfl
    · simp [scanNumber, hMinus]

theorem head_of_scanNumber {cs : List Char} {found : NumberText × List Char}
    (h : scanNumber cs = some found) :
    ∃ c after, cs = c :: after ∧ (c = '-' ∨ c.isDigit = true) := by
  cases cs with
  | nil => cases h
  | cons c after =>
    refine ⟨c, after, rfl, ?_⟩
    by_contra hOther
    obtain ⟨hMinus, hDigit⟩ := not_or.mp hOther
    rw [scanNumber_eq, List.head?_cons, if_neg (by simpa using hMinus)] at h
    simp [scanUnsigned, scanWhole, Numeral.digits?, Numeral.splitDigits, hDigit] at h

/-- A number is a token of its own, whatever the number denotes. -/
theorem scanToken_of_scanNumber {cs : List Char} {found : NumberText × List Char}
    (h : scanNumber cs = some found) : scanToken cs = some (.number found.1.number?, found.2) := by
  obtain ⟨first, after, rfl, hKind⟩ := head_of_scanNumber h
  have hOther (x : Char) (hx : x ≠ '-' ∧ x.isDigit = false) : first ≠ x := by
    rintro rfl
    rcases hKind with hMinus | hTrue
    · exact hx.1 hMinus
    · rw [hx.2] at hTrue
      cases hTrue
  rw [scanToken.eq_def]
  split
  case h_11 =>
    rw [h]
    rfl
  all_goals
    next hEq => exact absurd (List.cons.inj hEq).1 (hOther _ (by decide))

end NumberText

end TableGateway.Json
