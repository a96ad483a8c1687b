import TableGateway.Calendar.Literal
import TableGateway.Proofs.Calendar.Date
import TableGateway.Proofs.Text.Blank
import TableGateway.Proofs.Text.Run

/-!
# Dates and instants that are read back

A date is read back from its text by the format of dates, and an instant by the first format that
takes the text of it. That is RFC 3339 for the years of four digits; the others have a sign, and are
taken by the formats that allow for one.
-/

namespace TableGateway.Calendar

open Text (Stops padded isBlank_of_mem_padded)

variable {ds rest cs cs' : List Char} {least limit n : Nat} {r r' r'' : Reading} {field : Field}
  {item : Item}

theorem readNumber?_append (hDigits : ∀ c ∈ ds, c.isDigit = true) (hSome : ds ≠ [])
    (hLeast : least ≤ ds.length) (hLimit : ds.length ≤ limit)
    (hEnd : ds.length = limit ∨ Stops Char.isDigit rest) :
    readNumber? least limit (ds ++ rest) = some ((Numeral.ofDigits ds : Int), rest) := by
  have hStops : Stops Char.isDigit (rest.take (limit - ds.length)) := by
    rcases hEnd with hFull | hStops
    · rw [hFull, Nat.sub_self, List.take_zero]
      exact nofun
    · intro c hc
      cases rest with
      | nil => cases List.take_nil ▸ hc
      | cons d rest =>
        apply hStops c
        cases hRoom : limit - ds.length with
        | zero => rw [hRoom] at hc; cases hc
        | succ k => rw [hRoom] at hc; exact hc
  have hTake : takeDigits limit (ds ++ rest) = (ds, rest) := by
    rw [takeDigits, List.take_append, List.take_of_length_le hLimit,
      Text.takeWhile_append_of_stops hDigits hStops, List.drop_left]
  have hEnough : ¬ (ds.length < least ∨ ds.isEmpty = true) := by
    rw [List.isEmpty_iff, not_or]
    exact ⟨Nat.not_lt.mpr hLeast, hSome⟩
  rw [readNumber?, hTake]
  exact if_neg hEnough

theorem readNumber?_padded {width : Nat} (hWidth : 0 < width) (hLeast : least ≤ width)
    (hn : n < 10 ^ width) (rest : List Char) :
    readNumber? least width (padded width n ++ rest) = some ((n : Int), rest) := by
  have hLength := Text.length_padded hWidth hn
  rw [readNumber?_append Text.isDigit_of_mem_padded _ (by omega) (by omega) (.inl hLength),
    Text.ofDigits_padded]
  intro hNone
  rw [hNone] at hLength
  exact hWidth.ne hLength

theorem exists_padded {width : Nat} (hWidth : 0 < width) (n : Nat) :
    ∃ c cs, padded width n = c :: cs ∧ c.isDigit = true := by
  have hLength : width ≤ (padded width n).length := Text.le_length_padded
  cases h : padded width n with
  | nil =>
    rw [h] at hLength
    exact absurd hLength (Nat.not_le.mpr hWidth)
  | cons c cs =>
    have hFirst : c ∈ padded width n := by
      rw [h]
      exact List.mem_cons_self
    exact ⟨c, cs, rfl, Text.isDigit_of_mem_padded c hFirst⟩

/-- Nothing but a number without a sign begins with a digit. -/
theorem readLoose?_of_isDigit {c : Char} (h : c.isDigit = true) :
    readLoose? field (c :: cs) = readNumber? 1 field.width (c :: cs) := by
  rw [readLoose?]
  · intro rest _ hEq
    cases hEq
    cases h
  · intro rest _ hEq
    cases hEq
    cases h

/-- The items take the stretch `cs` of the text, whatever follows them and it, and complete the
reading `r` to `r'`. -/
def Format.Takes (items : Format) (r : Reading) (cs : List Char) (r' : Reading) : Prop :=
  ∀ (more : Format) (rest : List Char),
    Format.read? (items ++ more) r (cs ++ rest) = Format.read? more r' rest

namespace Format

variable {items items' : Format}

theorem takes_of_item (h : ∀ rest, item.read? r (cs ++ rest) = some (r', rest)) :
    Takes [item] r cs r' := by
  intro more rest
  rw [List.singleton_append, read?, h]
  rfl

theorem Takes.append (h : Takes items r cs r') (h' : Takes items' r' cs' r'') :
    Takes (items ++ items') r (cs ++ cs') r'' := by
  intro more rest
  rw [List.append_assoc, List.append_assoc, h, h']

theorem Takes.read?_eq (h : Takes items r cs r') : items.read? r cs = some r' := by
  have hAll := h [] []
  rw [List.append_nil, List.append_nil] at hAll
  exact hAll

theorem takes_mark {options : List Char} {c : Char} (h : options.contains c = true) :
    Takes [.mark options] r [c] r := by
  apply takes_of_item
  intro rest
  exact if_pos h

end Format

open Format (Takes takes_of_item takes_mark)

/-- The item of a field takes a number that fills the field. -/
def IsNumeral (item : Field → Item) : Prop :=
  ∀ (field : Field) (n : Nat) (r r' : Reading), n < 10 ^ field.width → field.set? n r = some r' →
    Takes [item field] r (padded field.width n) r'

theorem Field.width_pos (field : Field) : 1 ≤ field.width := by
  cases field <;> decide

theorem isNumeral_fixed : IsNumeral .fixed := by
  intro field n r r' hn hSet
  apply takes_of_item
  intro rest
  rw [Item.read?, readNumber?_padded field.width_pos (Nat.le_refl _) hn]
  simp [hSet]

theorem isNumeral_loose : IsNumeral .loose := by
  intro field n r r' hn hSet
  apply takes_of_item
  intro rest
  have hRead : readLoose? field (Text.trimStart (padded field.width n ++ rest)) =
      some ((n : Int), rest) := by
    rw [← readNumber?_padded field.width_pos field.width_pos hn rest]
    obtain ⟨c, cs, hPadded, hDigit⟩ := exists_padded field.width_pos n
    rw [hPadded, List.cons_append, Text.trimStart_of_head (Text.isBlank_of_isDigit hDigit)]
    exact readLoose?_of_isDigit hDigit
  rw [Item.read?, hRead]
  simp [hSet]

theorem IsNumeral.takesTwo {item : Field → Item} (h : IsNumeral item) (hWidth : field.width = 2)
    (hn : n ≤ 99) (hSet : field.set? n r = some r') : Takes [item field] r (padded 2 n) r' := by
  have hFills : n < 10 ^ field.width := by
    rw [hWidth]
    exact Nat.lt_succ_of_le hn
  rw [← hWidth]
  exact h field n r r' hFills hSet

def dateItems (item : Field → Item) : Format :=
  [item .year, .mark ['-'], item .month, .mark ['-'], item .day]

theorem dateFormat_eq : dateFormat = dateItems .loose := rfl

/-- The item takes a year of a date and the hyphen after it. -/
def TakesYear (item : Field → Item) (year : Int) : Prop :=
  ∀ r : Reading, Takes [item .year, .mark ['-']] r (Date.writeYear year ++ ['-']) { r with year }

theorem IsNumeral.takesYear {item : Field → Item} (h : IsNumeral item) {year : Int}
    (hYear : 0 ≤ year ∧ year ≤ 9999) : TakesYear item year := by
  intro r
  have hNumber : (year.natAbs : Int) = year := Int.natAbs_of_nonneg hYear.1
  have hField : Takes [item .year] r (padded 4 year.natAbs) { r with year } := by
    apply h .year
    · change year.natAbs < 10 ^ 4
      omega
    · rw [hNumber]
      rfl
  rw [Date.writeYear, if_pos hYear]
  exact hField.append (takes_mark (by decide))

/-- A year with a sign is read up to the hyphen after it. -/
theorem takesYear_loose (year : Int) : TakesYear .loose year := by
  by_cases hYear : 0 ≤ year ∧ year ≤ 9999
  · exact isNumeral_loose.takesYear hYear
  -- The digits after a sign are counted against the whole text, so only the hyphen ends them.
  · intro r more rest
    have hDigits : ∀ c ∈ padded 4 year.natAbs, c.isDigit = true := Text.isDigit_of_mem_padded
    have hSome : padded 4 year.natAbs ≠ [] := by
      obtain ⟨c, cs, hPadded, -⟩ := exists_padded (Nat.succ_pos 3) year.natAbs
      rw [hPadded]
      exact List.cons_ne_nil c cs
    have hNumber : readNumber? 1 (padded 4 year.natAbs ++ '-' :: rest).length
        (padded 4 year.natAbs ++ '-' :: rest) = some ((year.natAbs : Int), '-' :: rest) := by
      have hLength : 4 ≤ (padded 4 year.natAbs).length := Text.le_length_padded
      rw [readNumber?_append hDigits hSome (by omega) (by simp) (.inr (by simp [Stops])),
        Text.ofDigits_padded]
    have hItem : (Item.loose .year).read? r
        ((if year < 0 then '-' else '+') :: (padded 4 year.natAbs ++ '-' :: rest)) =
          some ({ r with year }, '-' :: rest) := by
      by_cases hSign : year < 0
      · have hNegative : -(year.natAbs : Int) = year := by omega
        rw [if_pos hSign, Item.read?, Text.trimStart_of_head (by decide), readLoose?, hNumber]
        exact congrArg (fun y => some ({ r with year := y }, '-' :: rest)) hNegative
      · have hPositive : (year.natAbs : Int) = year := by omega
        rw [if_neg hSign, Item.read?, Text.trimStart_of_head (by decide), readLoose?, hNumber]
        exact congrArg (fun y => some ({ r with year := y }, '-' :: rest)) hPositive
    have hText : Date.writeYear year ++ ['-'] ++ rest =
        (if year < 0 then '-' else '+') :: (padded 4 year.natAbs ++ '-' :: rest) := by
      rw [Date.writeYear, if_neg hYear]
      simp
    have hHyphen : Takes [.mark ['-']] { r with year } ['-'] { r with year } :=
      takes_mark (by decide)
    rw [hText, List.cons_append, Format.read?, hItem]
    exact hHyphen more rest

theorem takes_date {item : Field → Item} {d : Date} (h : IsNumeral item)
    (hYear : TakesYear item d.year) (hReal : d.IsReal) :
    Takes (dateItems item) r d.write
      { r with year := d.year, month := d.month, day := d.day } := by
  obtain ⟨hMonth, hDay⟩ := hReal
  have hDays := (Date.daysInMonth_mem d.year d.month).2
  have hMonthItem (r : Reading) :
      Takes [item .month] r (padded 2 d.month) { r with month := d.month } := by
    apply h.takesTwo rfl (by omega)
    rw [Field.set?, if_pos (by omega), Int.toNat_natCast]
  have hDayItem (r : Reading) :
      Takes [item .day] r (padded 2 d.day) { r with day := d.day } := by
    apply h.takesTwo rfl (by omega)
    rw [Field.set?, if_pos (by omega), Int.toNat_natCast]
  have hHyphen (r : Reading) : Takes [.mark ['-']] r ['-'] r := takes_mark (by decide)
  have hAll := (hYear r).append
    ((hMonthItem _).append ((hHyphen _).append (hDayItem _)))
  have hText : d.write = (Date.writeYear d.year ++ ['-']) ++
      (padded 2 d.month ++ (['-'] ++ padded 2 d.day)) := by
    simp [Date.write]
  rw [hText]
  exact hAll

def timeItems (item : Field → Item) : Format :=
  [item .hour, .mark [':'], item .minute, .mark [':'], item .second]

theorem takes_time {item : Field → Item} {hour minute second : Nat} (h : IsNumeral item)
    (hHour : hour ≤ 23) (hMinute : minute ≤ 59) (hSecond : second ≤ 60) (r : Reading) :
    Takes (timeItems item) r
      (padded 2 hour ++ [':'] ++ (padded 2 minute ++ [':'] ++ padded 2 second))
      { r with hour, minute, second } := by
  have hHourItem (r : Reading) : Takes [item .hour] r (padded 2 hour) { r with hour } := by
    apply h.takesTwo rfl (by omega)
    rw [Field.set?, if_pos (by omega), Int.toNat_natCast]
  have hMinuteItem (r : Reading) :
      Takes [item .minute] r (padded 2 minute) { r with minute } := by
    apply h.takesTwo rfl (by omega)
    rw [Field.set?, if_pos (by omega), Int.toNat_natCast]
  have hSecondItem (r : Reading) :
      Takes [item .second] r (padded 2 second) { r with second } := by
    apply h.takesTwo rfl (by omega)
    rw [Field.set?, if_pos (by omega), Int.toNat_natCast]
  have hColon (r : Reading) : Takes [.mark [':']] r [':'] r := takes_mark (by decide)
  exact ((hHourItem r).append (hColon _)).append
    (((hMinuteItem _).append (hColon _)).append (hSecondItem _))

/-- Digits after the point are as many as the places of the unit that they count. -/
theorem readFraction?_padded {places : Nat} (hPlaces : 0 < places) (hMost : places ≤ 9)
    (hn : n < 10 ^ places) (hRest : Stops Char.isDigit rest) :
    readFraction? ('.' :: padded places n ++ rest) =
      some (n * Nat.pow 10 (9 - places), rest) := by
  have hLength := Text.length_padded hPlaces hn
  have hDigits : ∀ c ∈ padded places n, c.isDigit = true := Text.isDigit_of_mem_padded
  have hSplit : Numeral.splitDigits (padded places n ++ rest) = (padded places n, rest) := by
    rw [Numeral.splitDigits, Text.takeWhile_append_of_stops hDigits hRest,
      Text.dropWhile_append_of_stops hDigits hRest]
  have hSome : (padded places n).isEmpty = false := by
    rw [List.isEmpty_eq_false_iff]
    intro hNone
    rw [hNone] at hLength
    exact hPlaces.ne hLength
  have hKept : (padded places n).take 9 = padded places n :=
    List.take_of_length_le (by omega)
  rw [List.cons_append, readFraction?, hSplit]
  simp only [hSome, hKept, hLength, Text.ofDigits_padded]
  rfl

theorem readFraction?_writeFraction (hn : n < Instant.nanosPerSecond)
    (hRest : Stops Char.isDigit rest) (hPoint : rest.head? ≠ some '.') :
    readFraction? (Instant.writeFraction n ++ rest) = some (n, rest) := by
  rw [Instant.nanosPerSecond] at hn
  rw [Instant.writeFraction]
  split
  · next hZero =>
    rw [hZero, List.nil_append, readFraction?]
    rintro cs rfl
    exact hPoint rfl
  · split
    · rw [readFraction?_padded (by decide) (by decide) (by omega) hRest]
      have hExact : n / 1000000 * Nat.pow 10 (9 - 3) = n := by
        change n / 1000000 * 1000000 = n
        omega
      rw [hExact]
    · split
      · rw [readFraction?_padded (by decide) (by decide) (by omega) hRest]
        have hExact : n / 1000 * Nat.pow 10 (9 - 6) = n := by
          change n / 1000 * 1000 = n
          omega
        rw [hExact]
      · rw [readFraction?_padded (by decide) (by decide) (by omega) hRest]
        exact congrArg (fun k => some (k, rest)) (Nat.mul_one n)

theorem readNumeric?_utc (rule : OffsetRule) (rest : List Char) :
    rule.readNumeric? ('+' :: '0' :: '0' :: ':' :: '0' :: '0' :: rest) = some (0, rest) := by
  have hHours (rest : List Char) : readNumber? 2 2 ('0' :: '0' :: rest) = some (0, rest) := rfl
  have hMinutes : rule.readMinutes? ('0' :: '0' :: rest) = some (0, rest) := rfl
  have hColon : rule.separate? (':' :: '0' :: '0' :: rest) = some ('0' :: '0' :: rest) := by
    obtain ⟨loose, allowZ, allowHoursOnly⟩ := rule
    cases loose <;> rfl
  simp [OffsetRule.readNumeric?, readSign?, hHours, hColon, hMinutes]

theorem readOffset_utc (rule : OffsetRule) (rest : List Char) :
    rule.read? ('+' :: '0' :: '0' :: ':' :: '0' :: '0' :: rest) = some (0, rest) := by
  have hStart (cs : List Char) : (if rule.loose then Text.trimStart ('+' :: cs) else '+' :: cs) =
      '+' :: cs := by
    rw [Text.trimStart_of_head (by decide), ite_self]
  simp only [OffsetRule.read?, hStart]
  rw [if_neg (by simp), readNumeric?_utc]

theorem toList_utc : "+00:00".toList = ['+', '0', '0', ':', '0', '0'] := by
  decide

theorem takes_fraction_offset (rule : OffsetRule) (hn : n < Instant.nanosPerSecond) :
    Takes [.fraction, .offset rule] r (Instant.writeFraction n ++ "+00:00".toList)
      { r with nanos := n, offset := 0 } := by
  have hOffset (r : Reading) :
      Takes [.offset rule] r ['+', '0', '0', ':', '0', '0'] { r with offset := 0 } := by
    apply takes_of_item
    intro rest
    simp only [List.cons_append, List.nil_append]
    rw [Item.read?, readOffset_utc]
    rfl
  intro more rest
  have hFraction : Item.read? .fraction r
      (Instant.writeFraction n ++ (['+', '0', '0', ':', '0', '0'] ++ rest)) =
        some ({ r with nanos := n }, ['+', '0', '0', ':', '0', '0'] ++ rest) := by
    rw [Item.read?, readFraction?_writeFraction hn (by simp [Stops]) (by simp)]
    rfl
  rw [toList_utc, List.append_assoc, List.cons_append, Format.read?, hFraction]
  exact hOffset _ more rest

theorem isBlank_of_mem_write (d : Date) : ∀ c ∈ d.write, Text.isBlank c = false := by
  have hYear : ∀ c ∈ Date.writeYear d.year, Text.isBlank c = false := by
    rw [Date.writeYear]
    split
    · exact isBlank_of_mem_padded
    · rw [List.forall_mem_cons]
      refine ⟨?_, isBlank_of_mem_padded⟩
      split <;> decide
  simp only [Date.write, List.forall_mem_append, List.forall_mem_cons]
  exact ⟨⟨hYear, by decide, isBlank_of_mem_padded⟩, by decide, isBlank_of_mem_padded⟩

theorem isBlank_of_mem_writeFraction (n : Nat) :
    ∀ c ∈ Instant.writeFraction n, Text.isBlank c = false := by
  rw [Instant.writeFraction]
  split
  · exact nofun
  · split
    · exact List.forall_mem_cons.mpr ⟨by decide, isBlank_of_mem_padded⟩
    · split
      · exact List.forall_mem_cons.mpr ⟨by decide, isBlank_of_mem_padded⟩
      · exact List.forall_mem_cons.mpr ⟨by decide, isBlank_of_mem_padded⟩

theorem isBlank_of_mem_writeLocal (t : Instant) :
    ∀ c ∈ t.writeLocal, Text.isBlank c = false := by
  simp only [Instant.writeLocal, Instant.writeTime, List.forall_mem_append, List.forall_mem_cons]
  exact ⟨isBlank_of_mem_write t.date, by decide,
    ⟨⟨isBlank_of_mem_padded, by decide, isBlank_of_mem_padded⟩, by decide, isBlank_of_mem_padded⟩,
    isBlank_of_mem_writeFraction _⟩

theorem trim_write (d : Date) : Text.trim d.write = d.write :=
  Text.trim_of_not_blank (isBlank_of_mem_write d)

theorem trim_toRfc3339 (t : Instant) :
    Text.trim t.toRfc3339.toList = t.writeLocal ++ "+00:00".toList := by
  have hOffset : ∀ c ∈ "+00:00".toList, Text.isBlank c = false := by
    have hAll : "+00:00".toList.all (fun c => !Text.isBlank c) = true := by
      rw [toList_utc]
      decide
    simpa using hAll
  rw [Instant.toRfc3339, String.toList_ofList]
  apply Text.trim_of_not_blank
  rw [List.forall_mem_append]
  exact ⟨isBlank_of_mem_writeLocal t, hOffset⟩

/-- What a date is read as. -/
def Reading.ofDate (d : Date) : Reading := { year := d.year, month := d.month, day := d.day }

/-- What an instant is read as, outside leap seconds. -/
def Reading.ofInstant (t : Instant) : Reading :=
  { Reading.ofDate t.date with
    hour := t.secondOfDay / 3600
    minute := t.secondOfDay / 60 % 60
    second := t.secondOfDay % 60
    nanos := t.nanos }

theorem read?_write {d : Date} (h : d.IsReal) : dateFormat.read? {} d.write = some (.ofDate d) := by
  rw [dateFormat_eq]
  exact (takes_date isNumeral_loose (takesYear_loose d.year) h).read?_eq

/-- Date and time with an offset, where `marks` may stand between them. -/
def instantItems (item : Field → Item) (marks : List Char) (rule : OffsetRule) : Format :=
  dateItems item ++ ([.mark marks] ++ (timeItems item ++ [.fraction, .offset rule]))

theorem takes_instant {item : Field → Item} {marks : List Char} {rule : OffsetRule} {t : Instant}
    (h : IsNumeral item) (hYear : TakesYear item t.date.year) (hMark : marks.contains 'T' = true)
    (hNanos : t.nanos < Instant.nanosPerSecond) :
    Takes (instantItems item marks rule) {} (t.writeLocal ++ "+00:00".toList)
      (.ofInstant t) := by
  have hDay : t.secondOfDay < 86400 := by
    rw [Instant.secondOfDay, Instant.secondsPerDay]
    omega
  have hDate := takes_date (r := {}) h hYear (Date.isReal_ofDayNumber _)
  have hHour : t.secondOfDay / 3600 ≤ 23 := by omega
  have hMinute : t.secondOfDay / 60 % 60 ≤ 59 := by omega
  have hSecond : t.secondOfDay % 60 ≤ 60 := by omega
  have hTime := takes_time h hHour hMinute hSecond (.ofDate t.date)
  have hAll := hDate.append ((takes_mark hMark).append
    (hTime.append (takes_fraction_offset rule hNanos)))
  have hText : t.writeLocal ++ "+00:00".toList = t.date.write ++ (['T'] ++
      (padded 2 (t.secondOfDay / 3600) ++ [':'] ++ (padded 2 (t.secondOfDay / 60 % 60) ++ [':'] ++
        padded 2 (t.secondOfDay % 60)) ++ (Instant.writeFraction t.nanos ++ "+00:00".toList))) := by
    rw [Instant.writeLocal, Instant.writeTime, Nat.div_eq_of_lt hNanos, Nat.mod_eq_of_lt hNanos]
    simp
  rw [hText]
  exact hAll

theorem instant?_ofInstant {t : Instant} (hRange : t.inRange = true) :
    (Reading.ofInstant t).instant? = some t := by
  have hDate : (Reading.ofInstant t).date = t.date := rfl
  have hSecond : (Reading.ofInstant t).second ≠ 60 := by
    change t.secondOfDay % 60 ≠ 60
    omega
  have hValid : t.date.isValid = true := by
    simp only [Instant.inRange, Bool.and_eq_true, decide_eq_true_eq] at hRange
    exact Date.isValid_iff.mpr ⟨Date.isReal_ofDayNumber _, hRange⟩
  have hSeconds : t.date.dayNumber * Instant.secondsPerDay + (Reading.ofInstant t).hour * 3600 +
      (Reading.ofInstant t).minute * 60 + (Reading.ofInstant t).second -
        (Reading.ofInstant t).offset = t.seconds := by
    have hDay := Date.dayNumber_ofDayNumber (t.seconds / Instant.secondsPerDay)
    rw [Instant.date, hDay]
    simp only [Reading.ofInstant, Reading.ofDate, Instant.secondOfDay, Instant.secondsPerDay]
    omega
  have hOffset : -Instant.secondsPerDay < (Reading.ofInstant t).offset ∧
      (Reading.ofInstant t).offset < Instant.secondsPerDay := by
    change -Instant.secondsPerDay < 0 ∧ 0 < Instant.secondsPerDay
    decide
  simp only [Reading.instant?, hDate, hSecond, if_false, hSeconds]
  exact if_pos ⟨hValid, hOffset.1, hOffset.2, hRange⟩

/-- A date that can be represented has a midnight. -/
theorem isSome_instant?_ofDate {d : Date} (h : d.isValid = true) :
    (Reading.ofDate d).instant?.isSome = true := by
  obtain ⟨hReal, hYears⟩ := Date.isValid_iff.mp h
  obtain ⟨midnight, hMidnight⟩ : ∃ t : Instant, t = ⟨d.dayNumber * Instant.secondsPerDay, 0⟩ :=
    ⟨_, rfl⟩
  have hDate : midnight.date = d := by
    rw [hMidnight, Instant.date, Int.mul_ediv_cancel _ (by decide), hReal.ofDayNumber_dayNumber]
  have hReading : Reading.ofDate d = .ofInstant midnight := by
    have hStart : midnight.secondOfDay = 0 := by
      rw [hMidnight, Instant.secondOfDay, Int.mul_emod_left]
      rfl
    rw [Reading.ofInstant, hStart, hDate, hMidnight]
    rfl
  have hRange : midnight.inRange = true := by
    simp only [Instant.inRange, hDate, Bool.and_eq_true, decide_eq_true_eq]
    exact hYears
  rw [hReading, instant?_ofInstant hRange]
  rfl

/-- Every date that can be represented is one when it is read back. -/
theorem isDate_write {d : Date} (h : d.isValid = true) : isDate d.write = true := by
  rw [isDate, readFormat?, read?_write (Date.isValid_iff.mp h).1, Option.bind_some]
  exact isSome_instant?_ofDate h

/-- A year with a sign is not one of four digits. -/
theorem read?_rfc3339_of_sign {c : Char} (h : c.isDigit = false) :
    rfc3339Format.read? {} (c :: cs) = none := by
  have hNone : readNumber? 4 4 (c :: cs) = none := by
    rw [readNumber?, takeDigits, List.take_succ_cons, List.takeWhile_cons_of_neg (by simp [h])]
    rfl
  rw [rfc3339Format, Format.read?, Item.read?, Field.width, hNone]
  rfl

theorem readInstant?_toRfc3339 {t : Instant} (hRange : t.inRange = true)
    (hNanos : t.nanos < Instant.nanosPerSecond) : readInstant? t.toRfc3339 = some t := by
  have hTaken {item : Field → Item} {marks : List Char} {rule : OffsetRule} (h : IsNumeral item)
      (hYear : TakesYear item t.date.year) (hMark : marks.contains 'T' = true) :
      readFormat? (t.writeLocal ++ "+00:00".toList) (instantItems item marks rule) = some t := by
    rw [readFormat?, (takes_instant h hYear hMark hNanos).read?_eq]
    exact instant?_ofInstant hRange
  have hFirst : rfc3339Format = instantItems .fixed ['t', 'T', ' '] ⟨false, true, false⟩ := rfl
  have hSecond : dateFormat ++ .mark ['T'] :: secondFormat ++ [numericOffset] =
      instantItems .loose ['T'] ⟨true, false, false⟩ := rfl
  rw [readInstant?, trim_toRfc3339, instantFormats, List.findSome?_cons]
  -- RFC 3339 is tried first, and it refuses the years that have a sign.
  by_cases hYear : 0 ≤ t.date.year ∧ t.date.year ≤ 9999
  · rw [hFirst, hTaken isNumeral_fixed (isNumeral_fixed.takesYear hYear) (by decide)]
  · have hNone : readFormat? (t.writeLocal ++ "+00:00".toList) rfc3339Format = none := by
      rw [readFormat?, Instant.writeLocal, Date.write, Date.writeYear, if_neg hYear]
      simp only [List.cons_append]
      rw [read?_rfc3339_of_sign]
      · rfl
      · split <;> decide
    rw [hNone, List.findSome?_cons, hSecond,
      hTaken isNumeral_loose (takesYear_loose _) (by decide)]

end TableGateway.Calendar
