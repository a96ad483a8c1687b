import TableGateway.BoundValue
import TableGateway.Proofs.Calendar.Clock

/-!
# Date and time literals

A literal is bound as the instant that it denotes. The instant is written with its offset, and what
is written is read as the instant again, in leap seconds as well.
-/

namespace TableGateway.Calendar

open Json.NumberText (IsDigits)
open Text (padded)

variable {cs : List Char} {r r' : Reading} {t : Instant}

/-- Less than a second in nanoseconds, and whole minutes from UTC. -/
structure Reading.IsWhole (r : Reading) : Prop where
  nanos : r.nanos < Instant.nanosPerSecond
  offset : r.offset % 60 = 0

theorem nanosOf_lt {ds : List Char} (h : IsDigits ds) : nanosOf ds < Instant.nanosPerSecond := by
  have hKept : IsDigits (ds.take 9) := fun c hc => h c (List.mem_of_mem_take hc)
  have hLength : (ds.take 9).length ≤ 9 := List.length_take_le 9 ds
  calc
    nanosOf ds < Nat.pow 10 (ds.take 9).length * Nat.pow 10 (9 - (ds.take 9).length) :=
      Nat.mul_lt_mul_of_pos_right (Numeral.ofDigits_lt _ hKept) (Nat.pow_pos (by decide))
    _ = 10 ^ ((ds.take 9).length + (9 - (ds.take 9).length)) := (Nat.pow_add 10 _ _).symm
    _ = Instant.nanosPerSecond := by rw [Nat.add_sub_cancel' hLength]; rfl

theorem OffsetRule.Spells.whole {rule : OffsetRule} {piece rest : List Char} {n : Int}
    (h : rule.Spells piece rest n) : n % 60 = 0 := by
  cases h with
  | utc => rfl
  | numeric _ hNumeric =>
    cases hNumeric with
    | hours hSign => cases hSign <;> omega
    | minutes hSign => cases hSign <;> omega

theorem Field.set?_isWhole {field : Field} {n : Int} (h : field.set? n r = some r')
    (hWhole : r.IsWhole) : r'.IsWhole := by
  cases field with
  | year =>
    cases h
    exact ⟨hWhole.nanos, hWhole.offset⟩
  | month | day | hour | minute | second =>
    cases (Option.ite_none_right_eq_some.mp h).2
    exact ⟨hWhole.nanos, hWhole.offset⟩

/-- No item makes a second of the nanoseconds or splits a minute of the offset. -/
theorem Item.Spells.isWhole {item : Item} {piece rest : List Char}
    (h : item.Spells r piece rest r') (hWhole : r.IsWhole) : r'.IsWhole := by
  cases h with
  | fixed _ hSet => exact Field.set?_isWhole hSet hWhole
  | loose _ _ hSet => exact Field.set?_isWhole hSet hWhole
  | mark => exact hWhole
  | blanks => exact hWhole
  | fraction hFraction =>
    refine ⟨?_, hWhole.offset⟩
    cases hFraction with
    | none => exact (by decide : 0 < Instant.nanosPerSecond)
    | some _ hDigits _ => exact nanosOf_lt hDigits
  | offset hSpells => exact ⟨hWhole.nanos, hSpells.whole⟩

theorem Format.Spells.isWhole {items : Format} (h : items.Spells r cs r') (hWhole : r.IsWhole) :
    r'.IsWhole := by
  induction h with
  | nil => exact hWhole
  | cons hItem _ ih => exact ih (hItem.isWhole hWhole)

/-- The instant can be represented. It may have a leap second at the end of a minute. -/
structure IsStandard (t : Instant) : Prop where
  inRange : t.inRange = true
  nanos : t.nanos < 2 * Instant.nanosPerSecond
  leap : Instant.nanosPerSecond ≤ t.nanos → t.seconds % 60 = 59

theorem isStandard_of_instant? (h : r.instant? = some t) (hWhole : r.IsWhole) : IsStandard t := by
  obtain ⟨hReal, hShows⟩ := Reading.instant?_eq_some_iff.mp h
  obtain ⟨n, -, hSeconds⟩ := hShows.seconds
  obtain ⟨hNanos, hOffset⟩ := hWhole
  have hShown := hShows.nanos
  rw [hShows.instant?_eq hReal.offset] at h
  refine ⟨(Option.ite_none_right_eq_some.mp h).1.2, ?_, ?_⟩
  · split at hShown <;> omega
  · intro hLeap
    rw [Instant.secondsPerDay] at hSeconds
    split at hShown
    · next hSecond =>
      rw [if_pos hSecond] at hSeconds
      omega
    · omega

def fractionDigits (nanos : Nat) : List Char :=
  if nanos = 0 then []
  else if nanos % 1000000 = 0 then padded 3 (nanos / 1000000)
  else if nanos % 1000 = 0 then padded 6 (nanos / 1000)
  else padded 9 nanos

theorem writeFraction_fractionDigits (nanos : Nat) :
    Clock.writeFraction (fractionDigits nanos) = Instant.writeFraction nanos := by
  have hPadded {places : Nat} (hPlaces : 0 < places) (n : Nat) :
      Clock.writeFraction (padded places n) = '.' :: padded places n := by
    obtain ⟨c, cs, hCons, -⟩ := exists_padded hPlaces n
    rw [hCons]
    rfl
  rw [fractionDigits, Instant.writeFraction]
  split
  · rfl
  · split
    · exact hPadded (by decide) _
    · split
      · exact hPadded (by decide) _
      · exact hPadded (by decide) _

/-- The digits of a fraction, and what they come to. -/
structure IsFraction (ds : List Char) (nanos : Nat) : Prop where
  digits : IsDigits ds
  short : ds.length ≤ 9
  value : nanosOf ds = nanos

theorem isFraction_padded {places n : Nat} (hPlaces : 0 < places) (hMost : places ≤ 9)
    (hn : n < 10 ^ places) : IsFraction (padded places n) (n * Nat.pow 10 (9 - places)) := by
  have hLength := Text.length_padded hPlaces hn
  have hKept : (padded places n).take 9 = padded places n :=
    List.take_of_length_le (by omega)
  refine ⟨Text.isDigit_of_mem_padded, by omega, ?_⟩
  rw [nanosOf, hKept, Text.ofDigits_padded, hLength]

theorem isFraction_fractionDigits {nanos : Nat} (h : nanos < Instant.nanosPerSecond) :
    IsFraction (fractionDigits nanos) nanos := by
  rw [Instant.nanosPerSecond] at h
  have hPlaces {places unit : Nat} (hPlaces : 0 < places) (hMost : places ≤ 9)
      (hUnit : Nat.pow 10 (9 - places) = unit) (hExact : nanos / unit * unit = nanos)
      (hLess : nanos / unit < 10 ^ places) : IsFraction (padded places (nanos / unit)) nanos := by
    have hPadded := isFraction_padded hPlaces hMost hLess
    rwa [hUnit, hExact] at hPadded
  rw [fractionDigits]
  split
  · next hZero =>
    rw [hZero]
    exact ⟨fun _ hNone => absurd hNone List.not_mem_nil, Nat.zero_le 9, rfl⟩
  · split
    · exact hPlaces (by decide) (by decide) rfl (by omega) (by omega)
    · split
      · exact hPlaces (by decide) (by decide) rfl (by omega) (by omega)
      · have hAll := @isFraction_padded 9 nanos (by decide) (by decide) (by omega)
        have hOne : nanos * Nat.pow 10 (9 - 9) = nanos := Nat.mul_one nanos
        rwa [hOne] at hAll

namespace Clock

/-- The clock of UTC at an instant. -/
def ofInstant (t : Instant) : Clock where
  date := t.date
  hour := t.secondOfDay / 3600
  minute := t.secondOfDay / 60 % 60
  second := t.secondOfDay % 60 + t.nanos / Instant.nanosPerSecond
  fraction := fractionDigits (t.nanos % Instant.nanosPerSecond)

def zeroOffset : Zone := .offset false 0 0

theorem isReal_zeroOffset : zeroOffset.IsReal :=
  ⟨Nat.zero_le 23, Nat.zero_le 59⟩

theorem toRfc3339_eq (t : Instant) :
    t.toRfc3339 = String.ofList ((ofInstant t).write 'T' zeroOffset) := by
  have hOffset : "+00:00".toList = zeroOffset.write := by
    rw [toList_utc]
    decide
  have hText : t.writeLocal ++ "+00:00".toList = (ofInstant t).write 'T' zeroOffset := by
    rw [hOffset, Instant.writeLocal, Instant.writeTime, ← writeFraction_fractionDigits, write,
      writeTime]
    simp [ofInstant]
  rw [Instant.toRfc3339, hText]

theorem isReal_ofInstant (h : IsStandard t) : (ofInstant t).IsReal := by
  have hFraction := isFraction_fractionDigits (Nat.mod_lt t.nanos (by decide))
  have hDay : t.secondOfDay < 86400 := by
    rw [Instant.secondOfDay, Instant.secondsPerDay]
    omega
  have hNanos := h.nanos
  rw [Instant.nanosPerSecond] at hNanos
  refine ⟨Date.isReal_ofDayNumber _, ?_, ?_, ?_, hFraction.digits, hFraction.short⟩
  · change t.secondOfDay / 3600 ≤ 23
    omega
  · change t.secondOfDay / 60 % 60 ≤ 59
    omega
  · change t.secondOfDay % 60 + t.nanos / 1000000000 ≤ 60
    omega

theorem shows_ofInstant (h : IsStandard t) : ((ofInstant t).reading zeroOffset).Shows t := by
  have hFraction := isFraction_fractionDigits (Nat.mod_lt t.nanos (by decide))
  have hNanos := h.nanos
  have hLeap := h.leap
  have hSecond : ((ofInstant t).reading zeroOffset).second =
      t.secondOfDay % 60 + t.nanos / Instant.nanosPerSecond := rfl
  have hFront : t.secondOfDay % 60 + t.nanos / Instant.nanosPerSecond = 60 ↔
      Instant.nanosPerSecond ≤ t.nanos := by
    rw [Instant.nanosPerSecond] at hNanos hLeap ⊢
    rw [Instant.secondOfDay, Instant.secondsPerDay]
    omega
  refine ⟨⟨t.seconds / Instant.secondsPerDay, Date.isDay_iff.mpr rfl, ?_⟩, ?_⟩
  · simp only [hSecond, hFront]
    simp only [reading, ofInstant, zeroOffset, Zone.seconds, Instant.secondOfDay,
      Instant.secondsPerDay]
    rw [Instant.nanosPerSecond] at hNanos hLeap ⊢
    split
    · omega
    · omega
  · have hValue : ((ofInstant t).reading zeroOffset).nanos = t.nanos % Instant.nanosPerSecond :=
      hFraction.value
    simp only [hSecond, hFront, hValue]
    rw [Instant.nanosPerSecond] at hNanos ⊢
    split
    · omega
    · omega

end Clock

/-- What is written for an instant is read as the instant. -/
theorem readInstant?_toRfc3339_of_isStandard (h : IsStandard t) :
    readInstant? t.toRfc3339 = some t := by
  have hRange := h.inRange
  have hValid : t.date.isValid = true := by
    simp only [Instant.inRange, Bool.and_eq_true, decide_eq_true_eq] at hRange
    exact Date.isValid_iff.mpr ⟨Date.isReal_ofDayNumber _, hRange⟩
  rw [Clock.toRfc3339_eq, Clock.readInstant?_write (Clock.isReal_ofInstant h)
    Clock.isReal_zeroOffset (.inl rfl) (Clock.shows_ofInstant h), if_neg, if_pos]
  · exact ⟨hValid, hRange⟩
  · rintro ⟨-, hUtc, -⟩
    cases hUtc

theorem isStandard_of_readInstant? {s : String} (h : readInstant? s = some t) : IsStandard t := by
  obtain ⟨format, -, hFormat⟩ := List.exists_of_findSome?_eq_some h
  obtain ⟨r, hRead, hInstant⟩ := Option.bind_eq_some_iff.mp hFormat
  have hWhole : (({} : Reading)).IsWhole := ⟨by decide, rfl⟩
  exact isStandard_of_instant? hInstant ((Format.read?_eq_some_iff.mp hRead).isWhole hWhole)

/-- A date is its midnight. -/
theorem readInstant?_date {d : Date} {n : Int} (hReal : d.IsReal) (hDay : Date.IsDay n d) :
    readInstant? (String.ofList d.write) =
      if d.isValid then some ⟨n * Instant.secondsPerDay, 0⟩ else none := by
  have hRead : dateFormat.read? {} (Text.trim (String.ofList d.write).toList) =
      some (.ofDate d) := by
    rw [String.toList_ofList, trim_write, read?_write hReal]
  have hShows : (Reading.ofDate d).Shows ⟨n * Instant.secondsPerDay, 0⟩ :=
    ⟨⟨n, hDay, by simp [Reading.ofDate]⟩, rfl⟩
  have hOffset : -Instant.secondsPerDay < 0 ∧ 0 < Instant.secondsPerDay := by decide
  have hInstant := hShows.instant?_eq hOffset
  have hDate : (Reading.ofDate d).date = d := rfl
  rw [hDate] at hInstant
  rw [readInstant?_eq (List.mem_of_getElem? (rfl : instantFormats[7]? = _)) hRead]
  by_cases hValid : d.isValid = true
  · have hSome := isSome_instant?_ofDate hValid
    rw [hInstant, Option.isSome_ite] at hSome
    rw [hInstant, if_pos hSome, if_pos hValid]
  · rw [hInstant, if_neg (fun h => hValid h.1), if_neg hValid]

theorem ofText_eq_ok_iff {column : Column} {s : String} (hType : column.type = .datetime) :
    BoundValue.ofText column s = .ok (.instant t) ↔ readInstant? s = some t := by
  have hRead : BoundValue.readLiteral? .datetime s = (readInstant? s).map .instant := rfl
  rw [BoundValue.ofText, hType, hRead]
  cases readInstant? s with
  | none => exact iff_of_false nofun nofun
  | some u => simp

/-- A reader of literals takes them for the instants that they denote. -/
structure NormalizesInstants (read : String → Option Instant) : Prop where
  /-- A date alone means its midnight in UTC. -/
  midnight : ∀ (d : Date) (n : Int), d.IsReal → Date.IsDay n d →
    read (String.ofList d.write) =
      if d.isValid = true then some ⟨n * Instant.secondsPerDay, 0⟩ else none
  blanks : ∀ (s : String) (before after : List Char), (∀ c ∈ before, Text.isBlank c = true) →
    (∀ c ∈ after, Text.isBlank c = true) →
      read (String.ofList (before ++ (s.toList ++ after))) = read s
  rewritten : ∀ (s : String) (t : Instant), read s = some t → read t.toRfc3339 = some t
  denoted : ∀ (s : String) (t : Instant), read s = some t ↔ Denotes (Text.trim s.toList) t
  bound : ∀ (column : Column) (s : String) (t : Instant), column.type = .datetime →
    (BoundValue.ofText column s = .ok (.instant t) ↔ read s = some t)
  /-- Two literals are the same instant if there is one that both denote. -/
  same : ∀ (s s' : String) (t t' : Instant), read s = some t → read s' = some t' →
    (t = t' ↔ ∃ u, Denotes (Text.trim s.toList) u ∧ Denotes (Text.trim s'.toList) u)

theorem normalizes_readInstant? : NormalizesInstants readInstant? where
  midnight _ _ hReal hDay := readInstant?_date hReal hDay
  blanks s before after hBefore hAfter := by
    rw [readInstant?, readInstant?, String.toList_ofList, Text.trim_surrounded hBefore hAfter]
  rewritten _ _ h := readInstant?_toRfc3339_of_isStandard (isStandard_of_readInstant? h)
  denoted _ _ := readInstant?_eq_some_iff
  bound _ _ _ hType := ofText_eq_ok_iff hType
  same s s' t t' h h' := by
    simp only [← readInstant?_eq_some_iff, h, h', Option.some.injEq]
    constructor
    · intro hSame
      exact ⟨t, rfl, hSame.symm⟩
    · rintro ⟨u, hLeft, hRight⟩
      exact hLeft.trans hRight.symm

/-- A date and a time are the instant at which a clock with their offset shows them, or a clock of
UTC where no offset is written. Only what stands between a `T` and a `Z` is not, in a year that has
a sign. -/
theorem clock_is_normalized_iff {c : Clock} {z : Zone} {mark : Char} (hReal : c.IsReal)
    (hZone : z.IsReal) (hMark : mark = 'T' ∨ mark = ' ') (hShows : (c.reading z).Shows t) :
    NormalizesInstants readInstant? ∧
      (readInstant? (String.ofList (c.write mark z)) = some t ↔
        c.date.isValid = true ∧ t.inRange = true ∧ ¬ c.IsUnread mark z) := by
  refine ⟨normalizes_readInstant?, ?_⟩
  rw [Clock.readInstant?_write hReal hZone hMark hShows]
  split
  · next hUnread => exact iff_of_false nofun fun h => h.2.2 hUnread
  · next hRead =>
    rw [Option.ite_none_right_eq_some, ← and_assoc, and_iff_left hRead, and_iff_left rfl]

def sampleClock : Clock where
  date := ⟨2024, 2, 29⟩
  hour := 23
  minute := 30
  second := 0
  fraction := ['5']

theorem sampleClock_is_normalized :
    readInstant? "2024-02-29 23:30:00.5-01:00" = some ⟨1709253000, 500000000⟩ := by
  have hReal : sampleClock.IsReal :=
    ⟨⟨by decide, by decide⟩, by decide, by decide, by decide, List.forall_mem_singleton.mpr rfl,
      by decide⟩
  have hShows : (sampleClock.reading (.offset true 1 0)).Shows ⟨1709253000, 500000000⟩ :=
    ⟨⟨19782, Date.isDay_iff.mpr (by decide), by decide⟩, by decide⟩
  have hZone : (Zone.offset true 1 0).IsReal := ⟨by decide, by decide⟩
  have hText : String.ofList (sampleClock.write ' ' (.offset true 1 0)) =
      "2024-02-29 23:30:00.5-01:00" := by
    decide
  have hClock := (clock_is_normalized_iff hReal hZone (.inr rfl) hShows).2
  rw [hText] at hClock
  exact hClock.mpr ⟨by decide, by decide, by decide⟩

/-- The letter for UTC is taken after a blank in every year, and after a `T` only in those of four
digits. -/
theorem signedYear_is_unread :
    readInstant? "+10000-01-01T00:00:00Z" = none ∧
      readInstant? "+10000-01-01 00:00:00Z" = some ⟨253402300800, 0⟩ ∧
      readInstant? "+10000-01-01T00:00:00+00:00" = some ⟨253402300800, 0⟩ := by
  decide +kernel

end TableGateway.Calendar
