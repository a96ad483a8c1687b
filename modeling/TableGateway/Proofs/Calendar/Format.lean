import TableGateway.Proofs.Calendar.Literal
import TableGateway.Proofs.Number.Numeral

/-!
# How dates and times are spelled

What each item of a format stands for, said without the reader. A number takes all the digits that
it may, and blanks are taken together, so a text is spelled by a format in one way. The reader takes
exactly what is spelled.
-/

namespace TableGateway.Calendar

open Json.NumberText (IsDigits)
open Numeral (ofDigits)
open Text (Stops)

variable {cs ds rest : List Char} {least limit : Nat} {n : Int} {r r' : Reading} {field : Field}
  {rule : OffsetRule} {item : Item}

/-- Digits within these bounds, to which none could be added. -/
structure IsNumber (least limit : Nat) (ds rest : List Char) : Prop where
  ne_nil : ds ≠ []
  digits : IsDigits ds
  atLeast : least ≤ ds.length
  atMost : ds.length ≤ limit
  ends : ds.length = limit ∨ Stops Char.isDigit rest

theorem isNumber_takeDigits (h : takeDigits limit cs = (ds, rest)) :
    cs = ds ++ rest ∧ IsDigits ds ∧ ds.length ≤ limit ∧
      (ds.length = limit ∨ Stops Char.isDigit rest) := by
  obtain ⟨hTake, hDrop⟩ := Prod.mk.inj h
  obtain ⟨hCut, hDigits, hStops⟩ := Text.span_eq_iff.mp ⟨hTake, rfl⟩
  generalize (cs.take limit).dropWhile Char.isDigit = left at hCut hStops
  have hLimit : ds.length ≤ limit := by
    have hLength := congrArg List.length hCut
    rw [List.length_take, List.length_append] at hLength
    omega
  obtain ⟨behind, rfl⟩ : ds <+: cs :=
    (List.prefix_append ds left).trans (hCut ▸ List.take_prefix limit cs)
  rw [hTake, List.drop_left] at hDrop
  subst hDrop
  refine ⟨rfl, hDigits, hLimit, (Nat.eq_or_lt_of_le hLimit).imp_right fun hRoom c hc => ?_⟩
  -- What is left of the stretch that was looked at is a front of the rest.
  rw [List.take_append, List.take_of_length_le hLimit, List.append_cancel_left_eq] at hCut
  apply hStops c
  rw [← hCut, List.head?_take, if_neg (by omega)]
  exact hc

theorem readNumber?_eq_some_iff :
    readNumber? least limit cs = some (n, rest) ↔
      ∃ ds, cs = ds ++ rest ∧ IsNumber least limit ds rest ∧ n = ofDigits ds := by
  constructor
  · intro h
    obtain ⟨ds, behind, hTake⟩ : ∃ ds behind, takeDigits limit cs = (ds, behind) := ⟨_, _, rfl⟩
    obtain ⟨hCut, hDigits, hLimit, hEnds⟩ := isNumber_takeDigits hTake
    rw [readNumber?, hTake] at h
    obtain ⟨hEnough, hValue⟩ := Option.ite_none_left_eq_some.mp h
    rw [List.isEmpty_iff, not_or, Nat.not_lt] at hEnough
    obtain ⟨rfl, rfl⟩ := Prod.mk.inj (Option.some.inj hValue)
    exact ⟨ds, hCut, ⟨hEnough.2, hDigits, hEnough.1, hLimit, hEnds⟩, rfl⟩
  · rintro ⟨ds, rfl, hNumber, rfl⟩
    exact readNumber?_append hNumber.digits hNumber.ne_nil hNumber.atLeast hNumber.atMost
      hNumber.ends

theorem IsNumber.exists_cons (h : IsNumber least limit ds rest) :
    ∃ d more, ds = d :: more ∧ d.isDigit = true := by
  cases ds with
  | nil => exact absurd rfl h.ne_nil
  | cons d more => exact ⟨d, more, rfl, h.digits d List.mem_cons_self⟩

/-- Where the limit cannot be reached, a number ends with its digits. -/
theorem isNumber_all_iff :
    IsNumber 1 (ds ++ rest).length ds rest ↔ ds ≠ [] ∧ IsDigits ds ∧ Stops Char.isDigit rest := by
  constructor
  · intro h
    refine ⟨h.ne_nil, h.digits, h.ends.elim (fun hFull => ?_) id⟩
    rw [List.length_append, Nat.left_eq_add, List.length_eq_zero_iff] at hFull
    rw [hFull]
    exact nofun
  · rintro ⟨hSome, hDigits, hStops⟩
    exact ⟨hSome, hDigits, List.length_pos_iff.mpr hSome, by simp, .inr hStops⟩

/-- A number that may be shorter than its field. A year with a sign may be longer as well. -/
inductive Field.Spells : Field → List Char → List Char → Int → Prop
  | bare {field : Field} {ds rest : List Char} (h : IsNumber 1 field.width ds rest) :
      Spells field ds rest (ofDigits ds)
  | plus {ds rest : List Char} (hSome : ds ≠ []) (hDigits : IsDigits ds)
      (hStops : Stops Char.isDigit rest) : Spells .year ('+' :: ds) rest (ofDigits ds)
  | minus {ds rest : List Char} (hSome : ds ≠ []) (hDigits : IsDigits ds)
      (hStops : Stops Char.isDigit rest) : Spells .year ('-' :: ds) rest (-(ofDigits ds : Int))

theorem readLoose?_eq_some_iff :
    readLoose? field cs = some (n, rest) ↔
      ∃ piece, cs = piece ++ rest ∧ field.Spells piece rest n := by
  constructor
  · intro h
    rw [readLoose?.eq_def] at h
    split at h
    · obtain ⟨⟨k, left⟩, hRead, hPair⟩ := Option.map_eq_some_iff.mp h
      cases hPair
      obtain ⟨ds, rfl, hNumber, rfl⟩ := readNumber?_eq_some_iff.mp hRead
      obtain ⟨hSome, hDigits, hStops⟩ := isNumber_all_iff.mp hNumber
      exact ⟨'-' :: ds, rfl, .minus hSome hDigits hStops⟩
    · obtain ⟨ds, rfl, hNumber, rfl⟩ := readNumber?_eq_some_iff.mp h
      obtain ⟨hSome, hDigits, hStops⟩ := isNumber_all_iff.mp hNumber
      exact ⟨'+' :: ds, rfl, .plus hSome hDigits hStops⟩
    · obtain ⟨ds, rfl, hNumber, rfl⟩ := readNumber?_eq_some_iff.mp h
      exact ⟨ds, rfl, .bare hNumber⟩
  · rintro ⟨piece, rfl, hNumber | ⟨hSome, hDigits, hStops⟩ | ⟨hSome, hDigits, hStops⟩⟩
    · obtain ⟨d, more, rfl, hDigit⟩ := hNumber.exists_cons
      rw [List.cons_append, readLoose?_of_isDigit hDigit]
      exact readNumber?_eq_some_iff.mpr ⟨d :: more, rfl, hNumber, rfl⟩
    · have hNumber := isNumber_all_iff.mpr ⟨hSome, hDigits, hStops⟩
      exact readNumber?_eq_some_iff.mpr ⟨_, rfl, hNumber, rfl⟩
    · have hNumber := isNumber_all_iff.mpr ⟨hSome, hDigits, hStops⟩
      have hRead := readNumber?_eq_some_iff.mpr ⟨_, rfl, hNumber, rfl⟩
      exact Option.map_eq_some_iff.mpr ⟨_, hRead, rfl⟩

/-- The number begins with a digit or a sign, which is no blank. -/
theorem Field.Spells.stops_blank {piece : List Char} (h : field.Spells piece rest n) :
    Stops Text.isBlank (piece ++ rest) := by
  cases h with
  | bare hNumber =>
    obtain ⟨d, more, rfl, hDigit⟩ := hNumber.exists_cons
    rintro c ⟨⟩
    exact Text.isBlank_of_isDigit hDigit
  | plus | minus =>
    rintro c ⟨⟩
    decide

theorem trimStart_eq_iff :
    Text.trimStart cs = rest ↔
      ∃ bs, cs = bs ++ rest ∧ (∀ c ∈ bs, Text.isBlank c = true) ∧ Stops Text.isBlank rest :=
  Text.dropWhile_eq_iff

/-- The digits behind a point, which need not be nine, as nanoseconds. -/
def nanosOf (ds : List Char) : Nat :=
  ofDigits (ds.take 9) * Nat.pow 10 (9 - (ds.take 9).length)

inductive FractionSpells : List Char → List Char → Nat → Prop
  | none {rest : List Char} (h : rest.head? ≠ some '.') : FractionSpells [] rest 0
  | some {ds rest : List Char} (hSome : ds ≠ []) (hDigits : IsDigits ds)
      (hStops : Stops Char.isDigit rest) : FractionSpells ('.' :: ds) rest (nanosOf ds)

theorem readFraction?_eq_some_iff {k : Nat} :
    readFraction? cs = some (k, rest) ↔
      ∃ piece, cs = piece ++ rest ∧ FractionSpells piece rest k := by
  constructor
  · intro h
    rw [readFraction?.eq_def] at h
    split at h
    · next behind =>
      obtain ⟨ds, left, hSplit⟩ : ∃ ds left, Numeral.splitDigits behind = (ds, left) :=
        ⟨_, _, rfl⟩
      obtain ⟨rfl, hDigits, hStops⟩ := Numeral.splitDigits_eq_iff.mp hSplit
      rw [hSplit] at h
      obtain ⟨hSome, hValue⟩ := Option.ite_none_left_eq_some.mp h
      cases hValue
      exact ⟨'.' :: ds, rfl, .some (by simpa using hSome) hDigits hStops⟩
    · next hPoint =>
      cases h
      refine ⟨[], rfl, .none fun hHead => ?_⟩
      obtain ⟨behind, rfl⟩ := List.head?_eq_some_iff.mp hHead
      exact hPoint behind rfl
  · rintro ⟨piece, rfl, hNone | ⟨hSome, hDigits, hStops⟩⟩
    · rw [List.nil_append, readFraction?]
      rintro behind rfl
      exact hNone rfl
    · rw [List.cons_append, readFraction?,
        Numeral.splitDigits_eq_iff.mpr ⟨rfl, hDigits, hStops⟩]
      exact if_neg (by simpa using hSome)

inductive IsSign : Char → Int → Prop
  | plus : IsSign '+' 1
  | minus : IsSign '-' (-1)
  | minusSign : IsSign '\u2212' (-1)

theorem readSign?_eq_some_iff {sign : Int} :
    readSign? cs = some (sign, rest) ↔ ∃ c, cs = c :: rest ∧ IsSign c sign := by
  constructor
  · intro h
    rw [readSign?.eq_def] at h
    split at h
    · cases h
      exact ⟨'+', rfl, .plus⟩
    · cases h
      exact ⟨'-', rfl, .minus⟩
    · cases h
      exact ⟨'\u2212', rfl, .minusSign⟩
    · cases h
  · rintro ⟨c, rfl, _ | _ | _⟩ <;> rfl

namespace OffsetRule

/-- What may stand in front of an offset. -/
def Leads (rule : OffsetRule) (bs : List Char) : Prop :=
  (∀ c ∈ bs, Text.isBlank c = true) ∧ (rule.loose = false → bs = [])

/-- What may stand between the hours and the minutes. -/
def Separates (rule : OffsetRule) (sep : List Char) : Prop :=
  if rule.loose then ∀ c ∈ sep, c = ':' ∨ Text.isBlank c = true else sep = [':']

def IsTwoDigits (ds : List Char) : Prop := ds.length = 2 ∧ IsDigits ds

/-- Hours east of UTC, and minutes where they are written, in seconds. -/
inductive SpellsNumeric (rule : OffsetRule) : List Char → List Char → Int → Prop
  | hours {hs sep : List Char} {c : Char} {sign : Int} (hSign : IsSign c sign)
      (hHours : IsTwoDigits hs) (hSeparates : rule.Separates sep)
      (hAllowed : rule.allowHoursOnly = true) :
      SpellsNumeric rule (c :: (hs ++ sep)) [] (sign * (ofDigits hs * 3600 + 0 * 60))
  | minutes {hs sep ms rest : List Char} {c : Char} {sign : Int} (hSign : IsSign c sign)
      (hHours : IsTwoDigits hs) (hSeparates : rule.Separates sep) (hMinutes : IsTwoDigits ms)
      (hMost : ofDigits ms ≤ 59) :
      SpellsNumeric rule (c :: (hs ++ (sep ++ ms))) rest
        (sign * (ofDigits hs * 3600 + ofDigits ms * 60))

/-- The seconds east of UTC. A letter stands for UTC itself. -/
inductive Spells (rule : OffsetRule) : List Char → List Char → Int → Prop
  | utc {bs rest : List Char} {c : Char} (hLeads : rule.Leads bs) (hAllowed : rule.allowZ = true)
      (hLetter : c = 'Z' ∨ c = 'z') : Spells rule (bs ++ [c]) rest 0
  | numeric {bs piece rest : List Char} {n : Int} (hLeads : rule.Leads bs)
      (h : rule.SpellsNumeric piece rest n) : Spells rule (bs ++ piece) rest n

theorem isNumber_two_iff : IsNumber 2 2 ds rest ↔ IsTwoDigits ds := by
  constructor
  · intro h
    exact ⟨Nat.le_antisymm h.atMost h.atLeast, h.digits⟩
  · rintro ⟨hLength, hDigits⟩
    have hSome : ds ≠ [] := by
      rintro rfl
      cases hLength
    exact ⟨hSome, hDigits, hLength.ge, hLength.le, .inl hLength⟩

theorem readTwo_eq_some_iff :
    readNumber? 2 2 cs = some (n, rest) ↔
      ∃ ds, cs = ds ++ rest ∧ IsTwoDigits ds ∧ n = ofDigits ds := by
  simp only [readNumber?_eq_some_iff, isNumber_two_iff]

/-- Between hours and minutes as much is skipped as may stand there. -/
theorem separate?_eq_some_iff :
    rule.separate? cs = some rest ↔
      ∃ sep, cs = sep ++ rest ∧ rule.Separates sep ∧
        (rule.loose = true → Stops (fun c => c = ':' || Text.isBlank c) rest) := by
  rw [separate?.eq_def]
  simp only [Separates]
  cases rule.loose with
  | true =>
    simp only [if_true, Option.some.injEq, forall_const, Text.dropWhile_eq_iff, Bool.or_eq_true,
      decide_eq_true_eq]
  | false =>
    constructor
    · intro h
      rw [if_neg nofun] at h
      split at h
      · cases h
        exact ⟨[':'], rfl, by simp, nofun⟩
      · cases h
    · rintro ⟨sep, rfl, hSep, -⟩
      rw [if_neg nofun] at hSep
      rw [hSep]
      rfl

theorem readMinutes?_eq_some_iff :
    rule.readMinutes? cs = some (n, rest) ↔
      (cs = [] ∧ rule.allowHoursOnly = true ∧ n = 0 ∧ rest = []) ∨
        ∃ ms, cs = ms ++ rest ∧ IsTwoDigits ms ∧ ofDigits ms ≤ 59 ∧ n = ofDigits ms := by
  have hNone {ms : List Char} (h : IsTwoDigits ms) : ms ++ rest ≠ [] := by
    intro hNil
    have hLength := h.1
    rw [(List.append_eq_nil_iff.mp hNil).1] at hLength
    cases hLength
  rw [readMinutes?]
  split
  · next hEmpty =>
    rw [List.isEmpty_iff] at hEmpty
    rw [Option.ite_none_right_eq_some, Option.some_inj, Prod.mk.injEq, or_iff_left]
    · constructor
      · rintro ⟨hAllowed, rfl, rfl⟩
        exact ⟨hEmpty, hAllowed, rfl, rfl⟩
      · rintro ⟨-, hAllowed, rfl, rfl⟩
        exact ⟨hAllowed, rfl, rfl⟩
    · rintro ⟨ms, hCut, hMinutes, -⟩
      exact hNone hMinutes (hCut.symm.trans hEmpty)
  · next hSome =>
    rw [List.isEmpty_iff] at hSome
    rw [or_iff_right (fun h => hSome h.1), Option.filter_eq_some_iff, readTwo_eq_some_iff]
    constructor
    · rintro ⟨⟨ms, rfl, hMinutes, rfl⟩, hMost⟩
      exact ⟨ms, rfl, hMinutes, by simpa using hMost, rfl⟩
    · rintro ⟨ms, rfl, hMinutes, hMost, rfl⟩
      exact ⟨⟨ms, rfl, hMinutes, rfl⟩, by simpa using hMost⟩

theorem readNumeric?_of_parts {hs after minutes : List Char} {c : Char} {sign m : Int}
    (hSign : IsSign c sign) (hHours : IsTwoDigits hs) (hSep : rule.separate? after = some minutes)
    (hMinutes : rule.readMinutes? minutes = some (m, rest)) :
    rule.readNumeric? (c :: (hs ++ after)) = some (sign * (ofDigits hs * 3600 + m * 60), rest) := by
  have hReadSign : readSign? (c :: (hs ++ after)) = some (sign, hs ++ after) :=
    readSign?_eq_some_iff.mpr ⟨c, rfl, hSign⟩
  have hReadHours : readNumber? 2 2 (hs ++ after) = some ((ofDigits hs : Int), after) :=
    readTwo_eq_some_iff.mpr ⟨hs, rfl, hHours, rfl⟩
  rw [readNumeric?]
  refine Option.bind_eq_some_iff.mpr ⟨_, hReadSign, ?_⟩
  refine Option.bind_eq_some_iff.mpr ⟨_, hReadHours, ?_⟩
  refine Option.bind_eq_some_iff.mpr ⟨_, hSep, ?_⟩
  exact Option.bind_eq_some_iff.mpr ⟨_, hMinutes, rfl⟩

theorem readNumeric?_eq_some_iff :
    rule.readNumeric? cs = some (n, rest) ↔
      ∃ piece, cs = piece ++ rest ∧ rule.SpellsNumeric piece rest n := by
  constructor
  · intro h
    rw [readNumeric?] at h
    obtain ⟨⟨sign, behind⟩, hReadSign, h⟩ := Option.bind_eq_some_iff.mp h
    obtain ⟨⟨hours, after⟩, hReadHours, h⟩ := Option.bind_eq_some_iff.mp h
    obtain ⟨minutes, hSep, h⟩ := Option.bind_eq_some_iff.mp h
    obtain ⟨⟨m, left⟩, hMinutes, h⟩ := Option.bind_eq_some_iff.mp h
    cases h
    obtain ⟨c, rfl, hSign⟩ := readSign?_eq_some_iff.mp hReadSign
    obtain ⟨hs, rfl, hHours, rfl⟩ := readTwo_eq_some_iff.mp hReadHours
    obtain ⟨sep, rfl, hSeparates, -⟩ := separate?_eq_some_iff.mp hSep
    rcases readMinutes?_eq_some_iff.mp hMinutes with
      ⟨rfl, hAllowed, rfl, rfl⟩ | ⟨ms, rfl, hTwo, hMost, rfl⟩
    · exact ⟨c :: (hs ++ sep), by simp, .hours hSign hHours hSeparates hAllowed⟩
    · exact ⟨c :: (hs ++ (sep ++ ms)), by simp, .minutes hSign hHours hSeparates hTwo hMost⟩
  · rintro ⟨piece, rfl, hSpells⟩
    cases hSpells with
    | @hours hs sep c sign hSign hHours hSeparates hAllowed =>
      have hSep : rule.separate? sep = some [] :=
        separate?_eq_some_iff.mpr ⟨sep, by simp, hSeparates, fun _ => by rintro _ ⟨⟩⟩
      rw [List.append_nil]
      exact readNumeric?_of_parts hSign hHours hSep
        (readMinutes?_eq_some_iff.mpr (.inl ⟨rfl, hAllowed, rfl, rfl⟩))
    | @minutes hs sep ms _ c sign hSign hHours hSeparates hMinutes hMost =>
      have hSep : rule.separate? (sep ++ (ms ++ rest)) = some (ms ++ rest) := by
        refine separate?_eq_some_iff.mpr ⟨sep, rfl, hSeparates, fun _ => ?_⟩
        have hNumber : IsNumber 2 2 ms rest := isNumber_two_iff.mpr hMinutes
        obtain ⟨d, more, rfl, hDigit⟩ := hNumber.exists_cons
        rintro _ ⟨⟩
        have hColon : d ≠ ':' := by
          rintro rfl
          cases hDigit
        simp [hColon, Text.isBlank_of_isDigit hDigit]
      rw [List.cons_append, List.append_assoc, List.append_assoc]
      exact readNumeric?_of_parts hSign hHours hSep
        (readMinutes?_eq_some_iff.mpr (.inr ⟨ms, rfl, hMinutes, hMost, rfl⟩))

theorem SpellsNumeric.exists_cons {piece : List Char} (h : rule.SpellsNumeric piece rest n) :
    ∃ c more sign, piece = c :: more ∧ IsSign c sign := by
  cases h with
  | @hours hs sep c sign hSign => exact ⟨c, _, sign, rfl, hSign⟩
  | @minutes hs sep ms _ c sign hSign => exact ⟨c, _, sign, rfl, hSign⟩

/-- The offset begins with a sign or a letter, which is no blank. -/
theorem read?_lead {bs : List Char} {c : Char} (hLeads : rule.Leads bs)
    (h : Text.isBlank c = false) :
    rule.read? (bs ++ c :: cs) =
      if rule.allowZ ∧ (c = 'Z' ∨ c = 'z') then some (0, cs) else rule.readNumeric? (c :: cs) := by
  have hStart : (if rule.loose then Text.trimStart (bs ++ c :: cs) else bs ++ c :: cs) =
      c :: cs := by
    cases hLoose : rule.loose with
    | true =>
      rw [if_pos rfl, trimStart_eq_iff]
      refine ⟨bs, rfl, hLeads.1, ?_⟩
      rintro _ ⟨⟩
      exact h
    | false =>
      rw [if_neg nofun, hLeads.2 hLoose, List.nil_append]
  rw [read?, hStart]

theorem read?_eq_some_iff :
    rule.read? cs = some (n, rest) ↔ ∃ piece, cs = piece ++ rest ∧ rule.Spells piece rest n := by
  constructor
  · intro h
    obtain ⟨bs, front, hCut, hLeads, hStart⟩ : ∃ bs front, cs = bs ++ front ∧ rule.Leads bs ∧
        (if rule.loose then Text.trimStart cs else cs) = front := by
      cases hLoose : rule.loose with
      | true =>
        obtain ⟨bs, hCut, hBlank, -⟩ := trimStart_eq_iff.mp (rfl : Text.trimStart cs = _)
        exact ⟨bs, _, hCut, ⟨hBlank, fun hStrict => nomatch hLoose.symm.trans hStrict⟩, rfl⟩
      | false => exact ⟨[], cs, rfl, ⟨nofun, fun _ => rfl⟩, rfl⟩
    rw [read?, hStart] at h
    subst hCut
    cases front with
    | nil => cases h
    | cons c behind =>
      replace h : (if rule.allowZ ∧ (c = 'Z' ∨ c = 'z') then some (0, behind)
        else rule.readNumeric? (c :: behind)) = some (n, rest) := h
      split at h
      · next hUtc =>
        cases h
        exact ⟨bs ++ [c], by simp, .utc hLeads hUtc.1 hUtc.2⟩
      · obtain ⟨piece, hPiece, hNumeric⟩ := readNumeric?_eq_some_iff.mp h
        exact ⟨bs ++ piece, by rw [hPiece, List.append_assoc], .numeric hLeads hNumeric⟩
  · rintro ⟨piece, rfl, hSpells⟩
    cases hSpells with
    | utc hLeads hAllowed hLetter =>
      rw [List.append_assoc, List.singleton_append, read?_lead hLeads]
      · exact if_pos ⟨hAllowed, hLetter⟩
      · rcases hLetter with rfl | rfl <;> decide
    | numeric hLeads hNumeric =>
      have hRead := readNumeric?_eq_some_iff.mpr ⟨_, rfl, hNumeric⟩
      obtain ⟨c, more, sign, rfl, hSign⟩ := hNumeric.exists_cons
      rw [List.append_assoc, List.cons_append, read?_lead hLeads (by cases hSign <;> decide),
        if_neg]
      · exact hRead
      · rintro ⟨-, rfl | rfl⟩ <;> cases hSign

end OffsetRule

/-- The item stands for the stretch of text in front of the rest, and completes the reading. -/
inductive Item.Spells : Item → Reading → List Char → List Char → Reading → Prop
  | fixed {field : Field} {r r' : Reading} {ds rest : List Char}
      (hNumber : IsNumber field.width field.width ds rest)
      (hSet : field.set? (ofDigits ds) r = some r') : Spells (.fixed field) r ds rest r'
  | loose {field : Field} {r r' : Reading} {bs piece rest : List Char} {n : Int}
      (hBlank : ∀ c ∈ bs, Text.isBlank c = true) (hNumber : field.Spells piece rest n)
      (hSet : field.set? n r = some r') : Spells (.loose field) r (bs ++ piece) rest r'
  | mark {options : List Char} {r : Reading} {c : Char} {rest : List Char} (h : c ∈ options) :
      Spells (.mark options) r [c] rest r
  | blanks {r : Reading} {bs rest : List Char} (hBlank : ∀ c ∈ bs, Text.isBlank c = true)
      (hStops : Stops Text.isBlank rest) : Spells .blanks r bs rest r
  | fraction {r : Reading} {piece rest : List Char} {k : Nat} (h : FractionSpells piece rest k) :
      Spells .fraction r piece rest { r with nanos := k }
  | offset {rule : OffsetRule} {r : Reading} {piece rest : List Char} {n : Int}
      (h : rule.Spells piece rest n) : Spells (.offset rule) r piece rest { r with offset := n }

theorem Item.read?_eq_some_iff :
    item.read? r cs = some (r', rest) ↔
      ∃ piece, cs = piece ++ rest ∧ item.Spells r piece rest r' := by
  cases item with
  | fixed field =>
    constructor
    · intro h
      obtain ⟨⟨n, left⟩, hRead, h⟩ := Option.bind_eq_some_iff.mp h
      obtain ⟨_, hSet, h⟩ := Option.bind_eq_some_iff.mp h
      cases h
      obtain ⟨ds, rfl, hNumber, rfl⟩ := readNumber?_eq_some_iff.mp hRead
      exact ⟨ds, rfl, .fixed hNumber hSet⟩
    · rintro ⟨piece, rfl, h⟩
      cases h with | fixed hNumber hSet =>
      have hRead := readNumber?_eq_some_iff.mpr ⟨_, rfl, hNumber, rfl⟩
      refine Option.bind_eq_some_iff.mpr ⟨_, hRead, ?_⟩
      exact Option.bind_eq_some_iff.mpr ⟨_, hSet, rfl⟩
  | loose field =>
    constructor
    · intro h
      obtain ⟨⟨n, left⟩, hRead, h⟩ := Option.bind_eq_some_iff.mp h
      obtain ⟨_, hSet, h⟩ := Option.bind_eq_some_iff.mp h
      cases h
      obtain ⟨bs, hCut, hBlank, -⟩ := trimStart_eq_iff.mp (rfl : Text.trimStart cs = _)
      obtain ⟨piece, hPiece, hNumber⟩ := readLoose?_eq_some_iff.mp hRead
      exact ⟨bs ++ piece, by rw [hCut, hPiece, List.append_assoc], .loose hBlank hNumber hSet⟩
    · rintro ⟨_, rfl, h⟩
      cases h with | loose hBlank hNumber hSet =>
      have hRead := readLoose?_eq_some_iff.mpr ⟨_, rfl, hNumber⟩
      have hStart := trimStart_eq_iff.mpr ⟨_, rfl, hBlank, hNumber.stops_blank⟩
      rw [List.append_assoc]
      refine Option.bind_eq_some_iff.mpr ⟨_, hStart.symm ▸ hRead, ?_⟩
      exact Option.bind_eq_some_iff.mpr ⟨_, hSet, rfl⟩
  | mark options =>
    rw [Item.read?.eq_def]
    constructor
    · intro h
      cases cs with
      | nil => cases h
      | cons c behind =>
        obtain ⟨hMark, hValue⟩ := Option.ite_none_right_eq_some.mp h
        cases hValue
        exact ⟨[c], rfl, .mark (List.contains_iff_mem.mp hMark)⟩
    · rintro ⟨_, rfl, h⟩
      cases h with | mark hMark =>
      exact if_pos (List.contains_iff_mem.mpr hMark)
  | blanks =>
    constructor
    · intro h
      cases h
      obtain ⟨bs, hCut, hBlank, hStops⟩ := trimStart_eq_iff.mp (rfl : Text.trimStart cs = _)
      exact ⟨bs, hCut, .blanks hBlank hStops⟩
    · rintro ⟨bs, rfl, h⟩
      cases h with | blanks hBlank hStops =>
      rw [Item.read?, trimStart_eq_iff.mpr ⟨bs, rfl, hBlank, hStops⟩]
  | fraction =>
    rw [Item.read?, Option.map_eq_some_iff]
    constructor
    · rintro ⟨⟨k, left⟩, hRead, hPair⟩
      cases hPair
      obtain ⟨piece, rfl, hFraction⟩ := readFraction?_eq_some_iff.mp hRead
      exact ⟨piece, rfl, .fraction hFraction⟩
    · rintro ⟨piece, rfl, h⟩
      cases h with | fraction hFraction =>
      exact ⟨_, readFraction?_eq_some_iff.mpr ⟨piece, rfl, hFraction⟩, rfl⟩
  | offset rule =>
    rw [Item.read?, Option.map_eq_some_iff]
    constructor
    · rintro ⟨⟨n, left⟩, hRead, hPair⟩
      cases hPair
      obtain ⟨piece, rfl, hOffset⟩ := OffsetRule.read?_eq_some_iff.mp hRead
      exact ⟨piece, rfl, .offset hOffset⟩
    · rintro ⟨piece, rfl, h⟩
      cases h with | offset hOffset =>
      exact ⟨_, OffsetRule.read?_eq_some_iff.mpr ⟨piece, rfl, hOffset⟩, rfl⟩

/-- The whole text is spelled by the items one after the other. -/
inductive Format.Spells : Format → Reading → List Char → Reading → Prop
  | nil {r : Reading} : Spells [] r [] r
  | cons {item : Item} {items : Format} {r r' r'' : Reading} {piece rest : List Char}
      (hItem : item.Spells r piece rest r') (hItems : Spells items r' rest r'') :
      Spells (item :: items) r (piece ++ rest) r''

theorem Format.read?_eq_some_iff {items : Format} :
    items.read? r cs = some r' ↔ items.Spells r cs r' := by
  induction items generalizing r cs with
  | nil =>
    rw [Format.read?, Option.ite_none_right_eq_some, List.isEmpty_iff]
    constructor
    · rintro ⟨rfl, ⟨⟩⟩
      exact .nil
    · rintro ⟨⟩
      exact ⟨rfl, rfl⟩
  | cons item items ih =>
    constructor
    · intro h
      obtain ⟨⟨next, rest⟩, hItem, hItems⟩ := Option.bind_eq_some_iff.mp h
      obtain ⟨piece, rfl, hPiece⟩ := Item.read?_eq_some_iff.mp hItem
      exact .cons hPiece (ih.mp hItems)
    · rintro (_ | ⟨hItem, hItems⟩)
      have hRead := Item.read?_eq_some_iff.mpr ⟨_, rfl, hItem⟩
      exact Option.bind_eq_some_iff.mpr ⟨_, hRead, ih.mpr hItems⟩

/-- The clock shows a day of the calendar, less than a day apart from UTC, and in UTC the year is
one that can be represented. The leap second counts as the one before it. -/
structure Reading.IsReal (r : Reading) : Prop where
  day : r.date.isValid = true
  offset : -Instant.secondsPerDay < r.offset ∧ r.offset < Instant.secondsPerDay
  year : Instant.inRange
    { seconds := r.date.dayNumber * Instant.secondsPerDay + r.hour * 3600 + r.minute * 60 +
        (if r.second = 60 then 59 else (r.second : Int)) - r.offset
      nanos := 0 } = true

theorem Reading.instant?_isSome_iff : r.instant?.isSome = true ↔ r.IsReal := by
  rw [Reading.instant?]
  constructor
  · intro h
    obtain ⟨hDay, hLeast, hMost, hYear⟩ := Option.isSome_ite.mp h
    exact ⟨hDay, ⟨hLeast, hMost⟩, hYear⟩
  · intro h
    exact Option.isSome_ite.mpr ⟨h.day, h.offset.1, h.offset.2, h.year⟩

theorem readFormat?_isSome_iff {format : Format} :
    (readFormat? cs format).isSome = true ↔ ∃ r : Reading, format.Spells {} cs r ∧ r.IsReal := by
  simp only [readFormat?, Option.isSome_bind, Option.any_eq_true_iff_get,
    ← Format.read?_eq_some_iff, ← Reading.instant?_isSome_iff]
  constructor
  · rintro ⟨hRead, hReal⟩
    exact ⟨_, (Option.some_get hRead).symm, hReal⟩
  · rintro ⟨r, hRead, hReal⟩
    exact ⟨Option.isSome_of_mem hRead, by simpa only [hRead, Option.get_some] using hReal⟩

theorem readInstant?_isSome_iff {s : String} :
    (readInstant? s).isSome = true ↔
      ∃ format ∈ instantFormats, ∃ r : Reading, format.Spells {} (Text.trim s.toList) r ∧
        r.IsReal := by
  simp only [readInstant?, List.isSome_findSome?, List.any_eq_true, readFormat?_isSome_iff]

/-- A text in the format of dates says nothing but the date. -/
theorem ofDate_of_spells (h : dateFormat.Spells {} cs r) : r = .ofDate r.date := by
  cases h with | cons hYear h =>
  cases h with | cons hHyphen h =>
  cases h with | cons hMonth h =>
  cases h with | cons hHyphen' h =>
  cases h with | cons hDay h =>
  cases h
  cases hHyphen
  cases hHyphen'
  cases hYear with | loose _ _ hSetYear =>
  cases hMonth with | loose _ _ hSetMonth =>
  cases hDay with | loose _ _ hSetDay =>
  cases hSetYear
  cases (Option.ite_none_right_eq_some.mp hSetMonth).2
  cases (Option.ite_none_right_eq_some.mp hSetDay).2
  rfl

theorem isDate_eq_true_iff :
    isDate cs = true ↔ ∃ d : Date, dateFormat.Spells {} cs (.ofDate d) ∧ d.isValid = true := by
  rw [isDate, readFormat?_isSome_iff]
  constructor
  · rintro ⟨r, hSpells, hReal⟩
    exact ⟨r.date, ofDate_of_spells hSpells ▸ hSpells, hReal.day⟩
  · rintro ⟨d, hSpells, hDay⟩
    exact ⟨_, hSpells, Reading.instant?_isSome_iff.mp (isSome_instant?_ofDate hDay)⟩

end TableGateway.Calendar
