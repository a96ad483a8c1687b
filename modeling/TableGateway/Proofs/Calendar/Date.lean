import Mathlib.Tactic.IntervalCases
import TableGateway.Calendar.Date

/-!
# Days and dates

Days are counted from 1970-01-01, each date being the day after the one before it in the calendar.
The arithmetic that takes a number of days to a date and back agrees with this count: every number
has its date, and every date of the calendar has its number.
-/

namespace TableGateway.Date

variable {d : Date} {n : Int}

/-- A day that the calendar has, in whatever year. -/
structure IsReal (d : Date) : Prop where
  month : 1 ≤ d.month ∧ d.month ≤ 12
  day : 1 ≤ d.day ∧ d.day ≤ daysInMonth d.year d.month

theorem isValid_iff :
    d.isValid = true ↔ d.IsReal ∧ minYear ≤ d.year ∧ d.year ≤ maxYear := by
  simp only [isValid, Bool.and_eq_true, decide_eq_true_eq]
  constructor
  · rintro ⟨⟨⟨⟨⟨hLeast, hGreatest⟩, hMonth⟩, hMonths⟩, hDay⟩, hDays⟩
    exact ⟨⟨⟨hMonth, hMonths⟩, ⟨hDay, hDays⟩⟩, hLeast, hGreatest⟩
  · rintro ⟨⟨⟨hMonth, hMonths⟩, ⟨hDay, hDays⟩⟩, hLeast, hGreatest⟩
    exact ⟨⟨⟨⟨⟨hLeast, hGreatest⟩, hMonth⟩, hMonths⟩, hDay⟩, hDays⟩

theorem isLeap_iff {year : Int} :
    isLeap year = true ↔ year % 4 = 0 ∧ (year % 100 ≠ 0 ∨ year % 400 = 0) := by
  simp [isLeap]

def next (d : Date) : Date :=
  if d.day < daysInMonth d.year d.month then { d with day := d.day + 1 }
  else if d.month < 12 then ⟨d.year, d.month + 1, 1⟩
  else ⟨d.year + 1, 1, 1⟩

/-- The date is `n` days from 1970-01-01, counted from one day to the next. -/
inductive IsDay : Int → Date → Prop
  | epoch : IsDay 0 ⟨1970, 1, 1⟩
  | after {n : Int} {d : Date} (h : IsDay n d) : IsDay (n + 1) d.next
  | before {n : Int} {d : Date} (isReal : d.IsReal) (h : IsDay (n + 1) d.next) : IsDay n d

/-- The year of a date when years begin in March. -/
def marchYear (d : Date) : Int := if d.month ≤ 2 then d.year - 1 else d.year

/-- Days before the month, which is the `m`-th after March. -/
def daysBefore (m : Int) : Int := (153 * m + 2) / 5

def marchMonth (d : Date) : Nat := (d.month + 9) % 12

def dayOfYear (d : Date) : Int := daysBefore d.marchMonth + d.day - 1

theorem dayNumber_eq (d : Date) :
    d.dayNumber = 365 * d.marchYear + d.marchYear / 4 - d.marchYear / 100 + d.marchYear / 400 +
      d.dayOfYear - 719468 := by
  rw [dayNumber, dayOfYear, daysBefore, marchMonth, marchYear]
  generalize (if d.month ≤ 2 then d.year - 1 else d.year) = y
  omega

/-- February aside, the days before the months after March fit the lengths of the months. -/
theorem daysInMonth_eq (year : Int) {month : Nat} (hMonth : 1 ≤ month ∧ month ≤ 12)
    (hOther : month ≠ 2) :
    (daysInMonth year month : Int) =
      daysBefore (((month + 9) % 12 : Nat) + 1) - daysBefore ((month + 9) % 12 : Nat) := by
  obtain ⟨hFirst, hLast⟩ := hMonth
  rw [daysInMonth, daysBefore, daysBefore, if_neg hOther]
  interval_cases month <;> simp at hOther ⊢

theorem daysInMonth_february (year : Int) :
    daysInMonth year 2 = if isLeap year then 29 else 28 := rfl

theorem daysInMonth_mem (year : Int) (month : Nat) :
    1 ≤ daysInMonth year month ∧ daysInMonth year month ≤ 31 := by
  rw [daysInMonth]
  split
  · split <;> decide
  · split <;> decide

/-- Only a leap day is the last of 366 days. -/
theorem IsReal.dayOfYear_le (h : d.IsReal) :
    0 ≤ d.dayOfYear ∧ d.dayOfYear ≤ 365 ∧
      (d.dayOfYear = 365 → isLeap (d.marchYear + 1) = true) := by
  obtain ⟨hMonth, hDay⟩ := h
  rw [dayOfYear]
  by_cases hFebruary : d.month = 2
  · have hYear : d.marchYear + 1 = d.year := by
      rw [marchYear, hFebruary]
      simp
    have hBefore : daysBefore d.marchMonth = 337 := by
      rw [marchMonth, hFebruary]
      rfl
    rw [hFebruary, daysInMonth_february] at hDay
    rw [hBefore, hYear]
    cases hLeap : isLeap d.year with
    | true =>
      rw [hLeap, if_pos rfl] at hDay
      exact ⟨by omega, by omega, fun _ => rfl⟩
    | false =>
      rw [hLeap, if_neg Bool.false_ne_true] at hDay
      omega
  · have hLength := daysInMonth_eq d.year hMonth hFebruary
    have hEarly : d.marchMonth ≤ 10 := by
      rw [marchMonth]
      omega
    rw [← marchMonth] at hLength
    rw [daysBefore] at hLength ⊢
    rw [daysBefore] at hLength
    omega

/-- After its last day, a month other than February is followed by a month of the same year. -/
theorem next_of_last (hMonth : 1 ≤ d.month ∧ d.month ≤ 12) (hOther : d.month ≠ 2)
    (hLast : ¬ d.day < daysInMonth d.year d.month) :
    d.next.marchYear = d.marchYear ∧ d.next.marchMonth = d.marchMonth + 1 ∧ d.next.day = 1 := by
  rw [next, if_neg hLast]
  split
  · simp only [marchYear, marchMonth, and_true]
    constructor
    · split <;> split <;> omega
    · omega
  · have hDecember : d.month = 12 := by omega
    simp [marchYear, marchMonth, hDecember]

theorem dayNumber_next (h : d.IsReal) : d.next.dayNumber = d.dayNumber + 1 := by
  obtain ⟨hMonth, hDay⟩ := h
  by_cases hWithin : d.day < daysInMonth d.year d.month
  · have hNext : d.next = { d with day := d.day + 1 } := if_pos hWithin
    rw [dayNumber_eq, dayNumber_eq, hNext]
    simp only [marchYear, dayOfYear, marchMonth]
    omega
  · by_cases hFebruary : d.month = 2
    · have hNext : d.next = ⟨d.year, 3, 1⟩ := by
        rw [next, if_neg hWithin, if_pos (by omega), hFebruary]
      rw [hFebruary, daysInMonth_february] at hDay hWithin
      rw [dayNumber_eq, dayNumber_eq, hNext]
      simp only [marchYear, dayOfYear, marchMonth, daysBefore, hFebruary]
      cases hLeap : isLeap d.year with
      | true =>
        rw [hLeap, if_pos rfl] at hDay hWithin
        have hYear := isLeap_iff.mp hLeap
        omega
      | false =>
        rw [hLeap, if_neg Bool.false_ne_true] at hDay hWithin
        have hYear : ¬ (d.year % 4 = 0 ∧ (d.year % 100 ≠ 0 ∨ d.year % 400 = 0)) := by
          rw [← isLeap_iff, hLeap]
          exact Bool.false_ne_true
        omega
    · obtain ⟨hYear, hNextMonth, hFirst⟩ := next_of_last hMonth hFebruary hWithin
      have hLength := daysInMonth_eq d.year hMonth hFebruary
      rw [← marchMonth] at hLength
      rw [dayNumber_eq, dayNumber_eq, hYear, dayOfYear, dayOfYear, hNextMonth, hFirst]
      push_cast
      omega

/-- A day of the 400 years from March on after which leap years recur: centuries, then blocks of
four years, then years, then days. The last day of a year is there only when the year ends in a leap
day. -/
structure EraDay where
  century : Int
  block : Int
  year : Int
  day : Int
  century_mem : 0 ≤ century ∧ century ≤ 3
  block_mem : 0 ≤ block ∧ block ≤ 24
  year_mem : 0 ≤ year ∧ year ≤ 3
  day_mem : 0 ≤ day ∧ day ≤ 365
  last_mem : day = 365 → year = 3 ∧ (block = 24 → century = 3)

namespace EraDay

def number (p : EraDay) : Int := 36524 * p.century + 1461 * p.block + 365 * p.year + p.day

def yearOfEra (p : EraDay) : Int := 100 * p.century + 4 * p.block + p.year

theorem exists_number {n : Int} (h : 0 ≤ n ∧ n < 146097) : ∃ p : EraDay, p.number = n := by
  -- The last century has one day more than the others, and the last year of a block likewise.
  obtain ⟨century, hCentury⟩ : ∃ c, c = min (n / 36524) 3 := ⟨_, rfl⟩
  obtain ⟨rest, hRest⟩ : ∃ r, r = n - 36524 * century := ⟨_, rfl⟩
  obtain ⟨inBlock, hBlock⟩ : ∃ t, t = rest % 1461 := ⟨_, rfl⟩
  have hBound : 0 ≤ century ∧ century ≤ 3 ∧ 0 ≤ rest ∧ rest ≤ 36524 ∧
      (rest = 36524 → century = 3) := by omega
  clear hCentury
  obtain ⟨year, hYear⟩ : ∃ y, y = min (inBlock / 365) 3 := ⟨_, rfl⟩
  refine ⟨⟨century, rest / 1461, year, inBlock - 365 * year, ?_, ?_, ?_, ?_, ?_⟩, ?_⟩
  · omega
  · omega
  · omega
  · omega
  · omega
  · simp only [number]
    omega

theorem number_mem (p : EraDay) : 0 ≤ p.number ∧ p.number < 146097 := by
  obtain ⟨century, block, year, day, hCentury, hBlock, hYear, hDay, hLast⟩ := p
  simp only [number]
  omega

theorem yearOfEra_mem (p : EraDay) : 0 ≤ p.yearOfEra ∧ p.yearOfEra < 400 := by
  obtain ⟨century, block, year, day, hCentury, hBlock, hYear, hDay, hLast⟩ := p
  simp only [yearOfEra]
  omega

theorem yearOfEra_eq (p : EraDay) :
    (p.number - p.number / 1460 + p.number / 36524 - p.number / 146096) / 365 = p.yearOfEra := by
  obtain ⟨century, block, year, day, hCentury, hBlock, hYear, hDay, hLast⟩ := p
  simp only [number, yearOfEra]
  generalize hn : 36524 * century + 1461 * block + 365 * year + day = n
  have hEra : n / 146096 = if century = 3 ∧ block = 24 ∧ year = 3 ∧ day = 365 then 1 else 0 := by
    omega
  have hCenturies : n / 36524 = century + n / 146096 := by omega
  have hBlocks : n / 1460 =
      25 * century + block + if 1460 ≤ 24 * century + block + 365 * year + day then 1 else 0 := by
    omega
  rw [hBlocks, hCenturies, hEra]
  omega

theorem dayOfYear_eq (p : EraDay) :
    p.number - (365 * p.yearOfEra + p.yearOfEra / 4 - p.yearOfEra / 100) = p.day := by
  obtain ⟨century, block, year, day, hCentury, hBlock, hYear, hDay, hLast⟩ := p
  simp only [number, yearOfEra]
  omega

end EraDay

/-- The date with this number of days before it in the year from March `y` on. -/
def ofMarch (y day : Int) : Date :=
  let m := (5 * day + 2) / 153
  let month := (if m < 10 then m + 3 else m - 9).toNat
  ⟨if month ≤ 2 then y + 1 else y, month, (day - daysBefore m + 1).toNat⟩

theorem ofDayNumber_eq {p : EraDay} (h : p.number = (n + 719468) % 146097) :
    ofDayNumber n = ofMarch (p.yearOfEra + (n + 719468) / 146097 * 400) p.day := by
  have hYear := p.yearOfEra_eq
  have hDay := p.dayOfYear_eq
  rw [h] at hYear hDay
  rw [ofDayNumber]
  simp only [hYear, hDay]
  rfl

section

variable {y day : Int} (hDay : 0 ≤ day ∧ day ≤ 365)

include hDay

theorem marchMonth_ofMarch : ((ofMarch y day).marchMonth : Int) = (5 * day + 2) / 153 := by
  simp only [marchMonth, ofMarch]
  omega

theorem marchYear_ofMarch : (ofMarch y day).marchYear = y := by
  simp only [marchYear, ofMarch]
  omega

theorem dayOfYear_ofMarch : (ofMarch y day).dayOfYear = day := by
  rw [dayOfYear, marchMonth_ofMarch hDay]
  simp only [ofMarch, daysBefore]
  omega

theorem isReal_ofMarch (hLeap : day = 365 → isLeap (y + 1) = true) : (ofMarch y day).IsReal := by
  have hMonth : 1 ≤ (ofMarch y day).month ∧ (ofMarch y day).month ≤ 12 := by
    simp only [ofMarch]
    omega
  have hSum := dayOfYear_ofMarch (y := y) hDay
  have hPlace := marchMonth_ofMarch (y := y) hDay
  rw [dayOfYear, hPlace] at hSum
  refine ⟨hMonth, ?_⟩
  by_cases hFebruary : (ofMarch y day).month = 2
  · have hYear : (ofMarch y day).year = y + 1 := by
      have hOwn := marchYear_ofMarch (y := y) hDay
      rw [marchYear, hFebruary] at hOwn
      omega
    have hLate : (5 * day + 2) / 153 = 11 := by
      rw [← hPlace, marchMonth, hFebruary]
      rfl
    rw [hLate, daysBefore] at hSum
    rw [hFebruary, daysInMonth_february, hYear]
    by_cases hLast : day = 365
    · rw [hLeap hLast, if_pos rfl]
      omega
    · have hShort : 28 ≤ if isLeap (y + 1) then 29 else 28 := by split <;> omega
      omega
  · have hLength := daysInMonth_eq (ofMarch y day).year hMonth hFebruary
    rw [← marchMonth, hPlace] at hLength
    rw [daysBefore] at hSum hLength
    rw [daysBefore] at hLength
    omega

end

/-- The month is found again from the day of the year. -/
theorem IsReal.marchMonth_eq (h : d.IsReal) :
    (5 * d.dayOfYear + 2) / 153 = (d.marchMonth : Int) := by
  obtain ⟨hFirst, hLast, -⟩ := h.dayOfYear_le
  obtain ⟨hMonth, hDay⟩ := h
  have hPlace : d.marchMonth ≤ 11 := by
    rw [marchMonth]
    omega
  by_cases hFebruary : d.month = 2
  · have hLate : d.marchMonth = 11 := by
      rw [marchMonth, hFebruary]
    rw [dayOfYear, hLate, daysBefore] at hLast ⊢
    omega
  · have hLength := daysInMonth_eq d.year hMonth hFebruary
    rw [← marchMonth, daysBefore, daysBefore] at hLength
    rw [dayOfYear, daysBefore]
    omega

theorem IsReal.ofMarch_eq (h : d.IsReal) : ofMarch d.marchYear d.dayOfYear = d := by
  have hPlace := h.marchMonth_eq
  obtain ⟨⟨hFirst, hLast⟩, hDay⟩ := h
  have hNumber : d.dayOfYear - daysBefore d.marchMonth + 1 = d.day := by
    rw [dayOfYear]
    omega
  have hMonth : (if (d.marchMonth : Int) < 10 then (d.marchMonth : Int) + 3
      else (d.marchMonth : Int) - 9).toNat = d.month := by
    rw [marchMonth]
    omega
  rw [ofMarch]
  simp only [hPlace, hNumber, hMonth, Int.toNat_natCast]
  obtain ⟨year, month, day⟩ := d
  simp only [marchYear, mk.injEq, and_true]
  omega

theorem isReal_ofDayNumber (n : Int) : (ofDayNumber n).IsReal := by
  obtain ⟨p, hp⟩ := EraDay.exists_number (n := (n + 719468) % 146097) (by omega)
  rw [ofDayNumber_eq hp]
  apply isReal_ofMarch p.day_mem
  intro hLast
  obtain ⟨century, block, year, day, hCentury, hBlock, hYear, hDay, hLast⟩ := p
  rw [isLeap_iff]
  simp only [EraDay.yearOfEra] at *
  omega

theorem dayNumber_ofDayNumber (n : Int) : (ofDayNumber n).dayNumber = n := by
  obtain ⟨p, hp⟩ := EraDay.exists_number (n := (n + 719468) % 146097) (by omega)
  have hDay := p.dayOfYear_eq
  have hYear := p.yearOfEra_mem
  rw [ofDayNumber_eq hp, dayNumber_eq, marchYear_ofMarch p.day_mem, dayOfYear_ofMarch p.day_mem]
  omega

theorem IsReal.ofDayNumber_dayNumber (h : d.IsReal) : ofDayNumber d.dayNumber = d := by
  obtain ⟨hFirst, hLast, hLeap⟩ := h.dayOfYear_le
  rw [isLeap_iff] at hLeap
  let p : EraDay :=
    { century := d.marchYear % 400 / 100
      block := d.marchYear % 100 / 4
      year := d.marchYear % 4
      day := d.dayOfYear
      century_mem := by omega
      block_mem := by omega
      year_mem := by omega
      day_mem := ⟨hFirst, hLast⟩
      last_mem := by omega }
  have hYear : p.yearOfEra = d.marchYear % 400 := by
    simp only [EraDay.yearOfEra, p]
    omega
  have hDay := p.dayOfYear_eq
  have hBound := p.number_mem
  have hDayOfYear : p.day = d.dayOfYear := rfl
  rw [hYear, hDayOfYear] at hDay
  have hBlocks : d.marchYear / 4 = d.marchYear / 400 * 100 + d.marchYear % 400 / 4 := by omega
  have hCenturies : d.marchYear / 100 = d.marchYear / 400 * 4 + d.marchYear % 400 / 100 := by omega
  have hNumber : d.dayNumber + 719468 = d.marchYear / 400 * 146097 + p.number := by
    rw [dayNumber_eq]
    omega
  have hEra : p.number = (d.dayNumber + 719468) % 146097 := by omega
  have hYears : p.yearOfEra + (d.dayNumber + 719468) / 146097 * 400 = d.marchYear := by omega
  rw [ofDayNumber_eq hEra, hYears, hDayOfYear, h.ofMarch_eq]

theorem isReal_next (h : d.IsReal) : d.next.IsReal := by
  obtain ⟨hMonth, hDay⟩ := h
  rw [next]
  split
  · next hWithin => exact ⟨hMonth, Nat.succ_pos d.day, hWithin⟩
  · split
    · next hEarly =>
      exact ⟨⟨Nat.succ_pos d.month, hEarly⟩, Nat.le_refl 1, (daysInMonth_mem _ _).1⟩
    · exact ⟨by simp, Nat.le_refl 1, (daysInMonth_mem _ _).1⟩

theorem next_ofDayNumber (n : Int) : (ofDayNumber n).next = ofDayNumber (n + 1) := by
  have hReal := isReal_ofDayNumber n
  rw [← (isReal_next hReal).ofDayNumber_dayNumber, dayNumber_next hReal, dayNumber_ofDayNumber]

/-- The arithmetic finds the date that the count from day to day comes to, and no other. -/
theorem isDay_iff : IsDay n d ↔ d = ofDayNumber n := by
  constructor
  · intro h
    induction h with
    | epoch => rfl
    | after _ ih => rw [ih, next_ofDayNumber]
    | @before n d isReal _ ih =>
      have hNumber : d.dayNumber = n := by
        have hNext := dayNumber_next isReal
        rw [ih, dayNumber_ofDayNumber] at hNext
        omega
      rw [← hNumber, isReal.ofDayNumber_dayNumber]
  · rintro rfl
    induction n using Int.induction_on with
    | zero => exact .epoch
    | succ i ih =>
      rw [← next_ofDayNumber]
      exact .after ih
    | pred i ih =>
      apply IsDay.before (isReal_ofDayNumber _)
      rw [next_ofDayNumber, Int.sub_add_cancel]
      exact ih

end TableGateway.Date
