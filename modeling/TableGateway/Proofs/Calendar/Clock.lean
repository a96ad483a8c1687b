import TableGateway.Proofs.Calendar.Unambiguous

/-!
# Clocks

A date and a time of day as they are written in full, with an offset from UTC or without one. A
reading shows the instant that lies as many days after 1970-01-01 as its date in the calendar, its
time of day later and its offset earlier. What is written is read as what it shows, in every year
and at every offset, save that `Z` is not taken after a `T` in a year that has a sign.
-/

namespace TableGateway.Calendar

open Format (Takes takes_mark)
open Json.NumberText (IsDigits)
open Text (Stops padded)

variable {cs ds rest : List Char} {r r' : Reading} {t : Instant} {mark : Char}

/-- A clock that shows the reading does so at the instant. The leap second counts as the one before
it with a second in nanoseconds. -/
structure Reading.Shows (r : Reading) (t : Instant) : Prop where
  seconds : ∃ n, Date.IsDay n r.date ∧
    t.seconds = n * Instant.secondsPerDay + r.hour * 3600 + r.minute * 60 +
      (if r.second = 60 then 59 else (r.second : Int)) - r.offset
  nanos : t.nanos = if r.second = 60 then r.nanos + Instant.nanosPerSecond else r.nanos

theorem Reading.instant?_eq_some_iff : r.instant? = some t ↔ r.IsReal ∧ r.Shows t := by
  have hDate (hDay : r.date.isValid = true) : Date.IsDay r.date.dayNumber r.date :=
    Date.isDay_iff.mpr (Date.isValid_iff.mp hDay).1.ofDayNumber_dayNumber.symm
  constructor
  · intro h
    have hReal : r.IsReal := Reading.instant?_isSome_iff.mp (Option.isSome_of_eq_some h)
    rw [Reading.instant?] at h
    rw [← Option.some.inj (Option.ite_none_right_eq_some.mp h).2]
    exact ⟨hReal, ⟨_, hDate hReal.day, rfl⟩, rfl⟩
  · rintro ⟨hReal, ⟨n, hDay, hSeconds⟩, hNanos⟩
    have hNumber : r.date.dayNumber = n := by
      rw [Date.isDay_iff.mp hDay, Date.dayNumber_ofDayNumber]
    rw [← hNumber] at hSeconds
    rw [Reading.instant?]
    refine Option.ite_none_right_eq_some.mpr
      ⟨⟨hReal.day, hReal.offset.1, hReal.offset.2, hReal.year⟩, ?_⟩
    obtain ⟨seconds, nanos⟩ := t
    cases hSeconds
    cases hNanos
    rfl

/-- The text without blanks around it says in some format what a clock shows at the instant. -/
def Denotes (cs : List Char) (t : Instant) : Prop :=
  ∃ format ∈ instantFormats, ∃ r : Reading, format.Spells {} cs r ∧ r.IsReal ∧ r.Shows t

theorem readInstant?_eq_some_iff {s : String} :
    readInstant? s = some t ↔ Denotes (Text.trim s.toList) t := by
  constructor
  · intro h
    obtain ⟨format, hMem, hFormat⟩ := List.exists_of_findSome?_eq_some h
    obtain ⟨r, hRead, hInstant⟩ := Option.bind_eq_some_iff.mp hFormat
    obtain ⟨hReal, hShows⟩ := Reading.instant?_eq_some_iff.mp hInstant
    exact ⟨format, hMem, r, Format.read?_eq_some_iff.mp hRead, hReal, hShows⟩
  · rintro ⟨format, hMem, r, hSpells, hReal, hShows⟩
    rw [readInstant?_eq hMem (Format.read?_eq_some_iff.mpr hSpells)]
    exact Reading.instant?_eq_some_iff.mpr ⟨hReal, hShows⟩

/-- A date and a time of day with the digits behind the point, if there are any. A sixtieth second
is a leap second. -/
structure Clock where
  date : Date
  hour : Nat
  minute : Nat
  second : Nat
  fraction : List Char

inductive Zone
  | unwritten
  | utc
  | offset (west : Bool) (hours minutes : Nat)
deriving DecidableEq

namespace Zone

/-- The seconds east of UTC. -/
def seconds : Zone → Int
  | unwritten => 0
  | utc => 0
  | offset west hours minutes => (if west then -1 else 1) * (hours * 3600 + minutes * 60)

def write : Zone → List Char
  | unwritten => []
  | utc => ['Z']
  | offset west hours minutes =>
    (if west then '-' else '+') :: (padded 2 hours ++ ([':'] ++ padded 2 minutes))

def IsReal : Zone → Prop
  | unwritten => True
  | utc => True
  | offset _ hours minutes => hours ≤ 23 ∧ minutes ≤ 59

end Zone

namespace Clock

structure IsReal (c : Clock) : Prop where
  date : c.date.IsReal
  hour : c.hour ≤ 23
  minute : c.minute ≤ 59
  second : c.second ≤ 60
  digits : IsDigits c.fraction
  short : c.fraction.length ≤ 9

def reading (c : Clock) (z : Zone) : Reading where
  year := c.date.year
  month := c.date.month
  day := c.date.day
  hour := c.hour
  minute := c.minute
  second := c.second
  nanos := nanosOf c.fraction
  offset := z.seconds

def writeTime (c : Clock) : List Char :=
  padded 2 c.hour ++ [':'] ++ (padded 2 c.minute ++ [':'] ++ padded 2 c.second)

def writeFraction : List Char → List Char
  | [] => []
  | ds => '.' :: ds

/-- Date and time with a mark between them. -/
def write (c : Clock) (mark : Char) (z : Zone) : List Char :=
  c.date.write ++ mark :: (c.writeTime ++ (writeFraction c.fraction ++ z.write))

end Clock

theorem spells_writeFraction (hDigits : IsDigits ds) (hStops : Stops Char.isDigit rest)
    (hPoint : rest.head? ≠ some '.') :
    FractionSpells (Clock.writeFraction ds) rest (nanosOf ds) := by
  cases ds with
  | nil => exact .none hPoint
  | cons d ds => exact .some (List.cons_ne_nil d ds) hDigits hStops

namespace Zone

variable {z : Zone}

/-- What follows the fraction does not go on with it. -/
theorem stops_write (z : Zone) :
    Stops Char.isDigit z.write ∧ z.write.head? ≠ some '.' := by
  cases z with
  | unwritten => exact ⟨by rintro _ ⟨⟩, nofun⟩
  | utc => exact ⟨by rintro _ ⟨⟩; rfl, by decide⟩
  | offset west hours minutes =>
    cases west with
    | false => exact ⟨by rintro _ ⟨⟩; rfl, by simp [write]⟩
    | true => exact ⟨by rintro _ ⟨⟩; rfl, by simp [write]⟩

theorem isTwoDigits_padded {n : Nat} (h : n ≤ 99) : OffsetRule.IsTwoDigits (padded 2 n) :=
  ⟨Text.length_padded (by decide) (Nat.lt_succ_of_le h), Text.isDigit_of_mem_padded⟩

theorem separates_colon (rule : OffsetRule) : rule.Separates [':'] := by
  rw [OffsetRule.Separates]
  split
  · rintro c hc
    exact .inl (List.mem_singleton.mp hc)
  · rfl

/-- Every rule takes an offset with its minutes. -/
theorem spells_offset (rule : OffsetRule) {west : Bool} {hours minutes : Nat}
    (h : (offset west hours minutes).IsReal) :
    rule.Spells (offset west hours minutes).write [] (offset west hours minutes).seconds := by
  obtain ⟨hHours, hMinutes⟩ := h
  have hSign : OffsetRule.IsTwoDigits (padded 2 hours) := isTwoDigits_padded (by omega)
  have hMost : Numeral.ofDigits (padded 2 minutes) ≤ 59 := by rwa [Text.ofDigits_padded]
  have hNumeric : rule.SpellsNumeric (offset west hours minutes).write []
      ((if west then -1 else 1) * (Numeral.ofDigits (padded 2 hours) * 3600 +
        Numeral.ofDigits (padded 2 minutes) * 60)) := by
    refine .minutes ?_ hSign (separates_colon rule) (isTwoDigits_padded (by omega)) hMost
    cases west with
    | false => exact .plus
    | true => exact .minus
  rw [Text.ofDigits_padded, Text.ofDigits_padded] at hNumeric
  exact @OffsetRule.Spells.numeric rule [] _ _ _ ⟨nofun, fun _ => rfl⟩ hNumeric

theorem spells_utc {rule : OffsetRule} (h : rule.allowZ = true) :
    rule.Spells utc.write [] utc.seconds :=
  @OffsetRule.Spells.utc rule [] [] 'Z' ⟨nofun, fun _ => rfl⟩ h (.inl rfl)

end Zone

/-- The item takes the mark between a date and a time. -/
def TakesMark (item : Item) (mark : Char) : Prop :=
  ∀ r cs, Stops Text.isBlank cs → item.read? r (mark :: cs) = some (r, cs)

theorem takesMark_mark {options : List Char} (h : mark ∈ options) :
    TakesMark (.mark options) mark := by
  intro r cs _
  exact if_pos (List.contains_iff_mem.mpr h)

theorem takesMark_blanks : TakesMark .blanks ' ' := by
  intro r cs hStops
  have hStart : Text.trimStart (' ' :: cs) = cs :=
    trimStart_eq_iff.mpr ⟨[' '], rfl, List.forall_mem_singleton.mpr (by decide), hStops⟩
  rw [Item.read?, hStart]

namespace Clock

variable {c : Clock} {z : Zone} {item : Field → Item} {sep : Item} {tail : Format}

theorem stops_writeTime (c : Clock) (cs : List Char) : Stops Text.isBlank (c.writeTime ++ cs) := by
  obtain ⟨d, ds, hPadded, hDigit⟩ := exists_padded Nat.two_pos c.hour
  rw [writeTime, hPadded]
  rintro _ ⟨⟩
  exact Text.isBlank_of_isDigit hDigit

/-- The items of a date, of a time and of a fraction leave the offset. -/
theorem read?_write (h : c.IsReal) (hNumeral : IsNumeral item) (hYear : TakesYear item c.date.year)
    (hMark : TakesMark sep mark) (tail : Format) :
    Format.read? (dateItems item ++ sep :: (timeItems item ++ .fraction :: tail)) {}
        (c.write mark z) = Format.read? tail (c.reading .unwritten) z.write := by
  have hDate := takes_date (r := {}) hNumeral hYear h.date
  have hTime (r : Reading) := takes_time hNumeral h.hour h.minute h.second r
  obtain ⟨hStops, hPoint⟩ := z.stops_write
  have hFraction (r : Reading) : Item.read? .fraction r (writeFraction c.fraction ++ z.write) =
      some ({ r with nanos := nanosOf c.fraction }, z.write) :=
    Item.read?_eq_some_iff.mpr
      ⟨_, rfl, .fraction (spells_writeFraction h.digits hStops hPoint)⟩
  rw [write, hDate, Format.read?, hMark _ _ (stops_writeTime c _)]
  simp only [Option.bind_eq_bind, Option.bind_some]
  rw [writeTime, hTime, Format.read?, hFraction]
  rfl

theorem read?_loose (h : c.IsReal) (hMark : TakesMark sep mark) (tail : Format) :
    Format.read? (dateFormat ++ sep :: (secondFormat ++ tail)) {} (c.write mark z) =
      Format.read? tail (c.reading .unwritten) z.write :=
  read?_write h isNumeral_loose (takesYear_loose c.date.year) hMark tail

theorem read?_offset {rule : OffsetRule} (h : rule.Spells z.write [] z.seconds) :
    Format.read? [.offset rule] (c.reading .unwritten) z.write = some (c.reading z) := by
  have hItem : Item.read? (.offset rule) (c.reading .unwritten) z.write =
      some (c.reading z, []) :=
    Item.read?_eq_some_iff.mpr ⟨z.write, (List.append_nil _).symm, .offset h⟩
  exact Option.bind_eq_some_iff.mpr ⟨_, hItem, rfl⟩

/-- The year is written with its four digits. -/
def HasPlainYear (c : Clock) : Prop := 0 ≤ c.date.year ∧ c.date.year ≤ 9999

instance (c : Clock) : Decidable c.HasPlainYear := inferInstanceAs (Decidable (_ ∧ _))

/-- Between a `T` and a `Z` the time of a year with a sign is not read. -/
def IsUnread (c : Clock) (mark : Char) (z : Zone) : Prop :=
  mark = 'T' ∧ z = .utc ∧ ¬ c.HasPlainYear

instance (c : Clock) (mark : Char) (z : Zone) : Decidable (c.IsUnread mark z) :=
  inferInstanceAs (Decidable (_ ∧ _ ∧ _))

theorem exists_format (h : c.IsReal) (hZone : z.IsReal) (hMark : mark = 'T' ∨ mark = ' ')
    (hRead : ¬ c.IsUnread mark z) :
    ∃ format ∈ instantFormats, format.read? {} (c.write mark z) = some (c.reading z) := by
  have hLetter : TakesMark (.mark ['T']) 'T' := takesMark_mark (by decide)
  cases z with
  | unwritten =>
    rcases hMark with rfl | rfl
    · exact ⟨_, List.mem_of_getElem? (rfl : instantFormats[4]? = _), read?_loose h hLetter []⟩
    · exact ⟨_, List.mem_of_getElem? (rfl : instantFormats[5]? = _),
        read?_loose h takesMark_blanks []⟩
  | offset west hours minutes =>
    have hOffset := read?_offset (c := c) (Zone.spells_offset ⟨true, false, false⟩ hZone)
    rcases hMark with rfl | rfl
    · exact ⟨_, List.mem_of_getElem? (rfl : instantFormats[1]? = _),
        (read?_loose h hLetter [numericOffset]).trans hOffset⟩
    · exact ⟨_, List.mem_of_getElem? (rfl : instantFormats[2]? = _),
        (read?_loose h takesMark_blanks [numericOffset]).trans hOffset⟩
  | utc =>
    rcases hMark with rfl | rfl
    · -- Only RFC 3339 takes a letter for UTC here, and it takes no sign of a year.
      have hYear : c.HasPlainYear := not_not.mp fun hSigned => hRead ⟨rfl, rfl, hSigned⟩
      exact ⟨rfc3339Format, List.mem_cons_self,
        (read?_write h isNumeral_fixed (isNumeral_fixed.takesYear hYear)
          (takesMark_mark (by decide)) _).trans (read?_offset (Zone.spells_utc rfl))⟩
    · exact ⟨_, List.mem_of_getElem? (rfl : instantFormats[3]? = _),
        (read?_loose h takesMark_blanks [anyOffset]).trans (read?_offset (Zone.spells_utc rfl))⟩

/-- A format leaves a mark unread that a longer one takes. -/
theorem read?_eq_none_of_longer {items more : Format} {options : List Char}
    (h : (items ++ .mark options :: more).read? r cs = some r') : items.read? r cs = none := by
  rw [Format.read?_append] at h
  obtain ⟨⟨next, rest⟩, hFront, hMark⟩ := Option.bind_eq_some_iff.mp h
  rw [← List.append_nil items, Format.read?_append, hFront, Option.bind_some]
  cases rest with
  | nil => cases hMark
  | cons c rest => rfl

theorem read?_blanks_of_letter {items : Format} (hTime : IsTime items) :
    Format.read? (.blanks :: items) r ('T' :: cs) = none := by
  rw [Option.eq_none_iff_forall_ne_some]
  intro r' h
  have hNone : readTime? r ('T' :: cs) = none :=
    readTime?_eq_none (by rintro _ ⟨⟩; decide) (by rintro _ ⟨⟩; decide)
  have hStart : Text.trimStart ('T' :: cs) = 'T' :: cs := Text.trimStart_of_head (by decide)
  have hItems : items.read? r (Text.trimStart ('T' :: cs)) = some r' := h
  rw [hStart] at hItems
  rw [hTime hItems] at hNone
  cases hNone

theorem read?_eq_none (h : c.IsReal) (hSigned : ¬ c.HasPlainYear) {format : Format}
    (hMem : format ∈ instantFormats) : format.read? {} (c.write 'T' .utc) = none := by
  have hLoose := read?_loose (z := .utc) h (takesMark_mark (List.mem_singleton_self 'T'))
  have hDate (more : Format) := takes_date (r := {}) isNumeral_loose (takesYear_loose _) h.date more
  have hWhole : (dateFormat ++ .mark ['T'] :: (secondFormat ++ [anyOffset])).read? {}
      (c.write 'T' .utc) = some (c.reading .utc) :=
    (hLoose [anyOffset]).trans (read?_offset (Zone.spells_utc rfl))
  have hBlanks {items : Format} (hTime : IsTime items) :
      (dateFormat ++ .blanks :: items).read? {} (c.write 'T' .utc) = none := by
    rw [dateFormat_eq, write, hDate]
    exact read?_blanks_of_letter hTime
  simp only [instantFormats, List.mem_cons, List.not_mem_nil, or_false] at hMem
  rcases hMem with rfl | rfl | rfl | rfl | rfl | rfl | rfl | rfl
  · have hSign : ¬ (0 ≤ c.date.year ∧ c.date.year ≤ 9999) := hSigned
    rw [write, Date.write, Date.writeYear, if_neg hSign, List.cons_append, List.cons_append]
    apply read?_rfc3339_of_sign
    split <;> decide
  · exact hLoose [numericOffset]
  · exact hBlanks (isTime_offset _)
  · exact hBlanks (isTime_offset _)
  · exact hLoose []
  · exact hBlanks isTime_second
  · have hSeconds : (dateFormat ++ .mark ['T'] :: minuteFormat ++
        .mark [':'] :: [.loose .second, .fraction, anyOffset]).read? {} (c.write 'T' .utc) =
          some (c.reading .utc) := hWhole
    exact read?_eq_none_of_longer hSeconds
  · exact read?_eq_none_of_longer hWhole

theorem isBlank_of_mem_writeTime (c : Clock) : ∀ d ∈ c.writeTime, Text.isBlank d = false := by
  have hColon : ∀ d ∈ [':'], Text.isBlank d = false := List.forall_mem_singleton.mpr (by decide)
  simp only [writeTime, List.forall_mem_append]
  exact ⟨⟨Text.isBlank_of_mem_padded, hColon⟩, ⟨Text.isBlank_of_mem_padded, hColon⟩,
    Text.isBlank_of_mem_padded⟩

theorem isBlank_of_mem_writeFraction (h : IsDigits ds) :
    ∀ d ∈ writeFraction ds, Text.isBlank d = false := by
  cases ds with
  | nil => exact nofun
  | cons d ds =>
    exact List.forall_mem_cons.mpr
      ⟨by decide, fun d hd => Text.isBlank_of_isDigit (h d hd)⟩

theorem isBlank_of_mem_writeZone (z : Zone) : ∀ d ∈ z.write, Text.isBlank d = false := by
  cases z with
  | unwritten => exact nofun
  | utc => exact List.forall_mem_singleton.mpr (by decide)
  | offset west hours minutes =>
    simp only [Zone.write, List.forall_mem_cons, List.forall_mem_append]
    refine ⟨?_, Text.isBlank_of_mem_padded, ⟨by decide, nofun⟩, Text.isBlank_of_mem_padded⟩
    cases west <;> decide

/-- A blank may stand between date and time, but not at the ends. -/
theorem trim_write (h : IsDigits c.fraction) : Text.trim (c.write mark z) = c.write mark z := by
  have hBack : ∀ d ∈ c.writeTime ++ (writeFraction c.fraction ++ z.write),
      Text.isBlank d = false := by
    simp only [List.forall_mem_append]
    exact ⟨isBlank_of_mem_writeTime c, isBlank_of_mem_writeFraction h, isBlank_of_mem_writeZone z⟩
  have hDate : c.date.write ≠ [] := by
    simp [Date.write]
  have hTime : c.writeTime ++ (writeFraction c.fraction ++ z.write) ≠ [] := by
    simp [writeTime]
  apply Text.trim_of_stops
  · exact Text.stops_append hDate (isBlank_of_mem_write c.date) _
  · rw [write, List.append_cons, List.reverse_append]
    apply Text.stops_append
    · exact fun hNone => hTime (List.reverse_eq_nil_iff.mp hNone)
    · exact fun d hd => hBack d (List.mem_reverse.mp hd)

theorem Zone.seconds_mem (h : z.IsReal) :
    -Instant.secondsPerDay < z.seconds ∧ z.seconds < Instant.secondsPerDay := by
  cases z with
  | unwritten => decide
  | utc => decide
  | offset west hours minutes =>
    obtain ⟨hHours, hMinutes⟩ := h
    rw [Instant.secondsPerDay, Zone.seconds]
    split <;> omega

end Clock

/-- What is shown is an instant if date and instant can be represented. -/
theorem Reading.Shows.instant?_eq (h : r.Shows t)
    (hOffset : -Instant.secondsPerDay < r.offset ∧ r.offset < Instant.secondsPerDay) :
    r.instant? = if r.date.isValid = true ∧ t.inRange = true then some t else none := by
  obtain ⟨n, hDay, hSeconds⟩ := h.seconds
  have hNumber : r.date.dayNumber = n := by
    rw [Date.isDay_iff.mp hDay, Date.dayNumber_ofDayNumber]
  have hRange {k : Nat} : Instant.inRange ⟨t.seconds, k⟩ = t.inRange := rfl
  have hReal : r.IsReal ↔ r.date.isValid = true ∧ t.inRange = true := by
    constructor
    · rintro ⟨hValid, -, hYear⟩
      rw [hNumber, ← hSeconds, hRange] at hYear
      exact ⟨hValid, hYear⟩
    · rintro ⟨hValid, hYear⟩
      refine ⟨hValid, hOffset, ?_⟩
      rw [hNumber, ← hSeconds, hRange]
      exact hYear
  split
  · next hInside => exact Reading.instant?_eq_some_iff.mpr ⟨hReal.mpr hInside, h⟩
  · next hOutside =>
    rw [← Option.not_isSome_iff_eq_none, Reading.instant?_isSome_iff, hReal]
    exact hOutside

namespace Clock

variable {c : Clock} {z : Zone}

/-- What a clock shows is read back wherever it can be. -/
theorem readInstant?_write (h : c.IsReal) (hZone : z.IsReal) (hMark : mark = 'T' ∨ mark = ' ')
    (hShows : (c.reading z).Shows t) :
    readInstant? (String.ofList (c.write mark z)) =
      if c.IsUnread mark z then none
      else if c.date.isValid = true ∧ t.inRange = true then some t else none := by
  have hTrim : Text.trim (String.ofList (c.write mark z)).toList = c.write mark z := by
    rw [String.toList_ofList, trim_write h.digits]
  split
  · next hUnread =>
    obtain ⟨rfl, rfl, hSigned⟩ := hUnread
    rw [readInstant?, hTrim, List.findSome?_eq_none_iff]
    intro format hMem
    rw [readFormat?, read?_eq_none h hSigned hMem]
    rfl
  · next hRead =>
    obtain ⟨format, hMem, hFormat⟩ := exists_format h hZone hMark hRead
    rw [readInstant?_eq hMem (hTrim.symm ▸ hFormat), hShows.instant?_eq (Zone.seconds_mem hZone)]
    rfl

end Clock

end TableGateway.Calendar
