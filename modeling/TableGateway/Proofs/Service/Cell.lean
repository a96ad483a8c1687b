import TableGateway.BoundValue
import TableGateway.Proofs.Calendar.Literal
import TableGateway.Proofs.Json.Meaning
import TableGateway.Proofs.Number.Numeral
import TableGateway.Proofs.Number.Single
import TableGateway.Proofs.Uuid
import TableGateway.Service.Cell

/-!
# Cells that are written back

The JSON of a cell can come back in a body, to be written to the column that it was read from. What
is then bound is the value in the cell, whatever its type. Of JSON this holds where a value has room
for what is stored: a longer number is rounded.
-/

namespace TableGateway

open Calendar (dateFormat readInstant?_toRfc3339 isDate_write read?_write trim_write)

namespace Cell

/-- The type of the columns that such cells are read from. -/
def columnType? : Cell → Option DataType
  | .int16 _ | .int32 _ | .int64 _ => some .integer
  | .float32 _ | .float64 _ => some .float
  | .bool _ => some .boolean
  | .uuid _ => some .uuid
  | .date _ => some .date
  | .timestampTz _ => some .datetime
  | .text _ => some .text
  | .json _ => some .json
  | .null | .time _ | .timestamp _ | .unreadable => none

/-- The cell holds what its database type has room for, and JSON can show it: floats are finite,
days and instants are in a year that can be represented, and JSON is not null, is not nested too
deep, and a value has room for its numbers and strings. -/
def IsShown : Cell → Prop
  | .int16 n => -2 ^ 15 ≤ n ∧ n < 2 ^ 15
  | .int32 n => -2 ^ 31 ≤ n ∧ n < 2 ^ 31
  | .int64 n => -2 ^ 63 ≤ n ∧ n < 2 ^ 63
  | .float32 bits => bits < 2 ^ 32 ∧ Binary64.singleIsFinite bits = true
  | .float64 x => x.isFinite = true
  | .date days =>
    ∃ d, Date.IsDay (days + Instant.databaseEpoch / Instant.secondsPerDay) d ∧
      Date.minYear ≤ d.year ∧ d.year ≤ Date.maxYear
  | .timestampTz micros => (Instant.ofDatabaseMicros micros).inRange = true
  | .json s => ∃ x, Json.Says s x ∧ x ≠ .null ∧ x.IsHeld ∧ x.depth ≤ Json.Document.maxDepth
  | _ => True

end Cell

namespace BoundValue

variable {column : Column} {v : BoundValue}

/-- The value that is bound is the one that the cell holds. -/
def Denotes : BoundValue → Cell → Prop
  | .int n, .int16 m | .int n, .int32 m | .int n, .int64 m => n = m
  | .double x, .float32 bits =>
    ∀ single < 2 ^ 32, Binary64.Widens single x ↔ single = bits
  | .double x, .float64 y => x = y
  | .bool b, .bool c => b = c
  | .uuid u, .uuid w => u = w
  | .text s, .date days =>
    ∃ d, Date.IsDay (days + Instant.databaseEpoch / Instant.secondsPerDay) d ∧
      (dateFormat.read? {} s.toList).map Calendar.Reading.date = some d
  | .instant t, .timestampTz micros =>
    t.nanos < 10 ^ 9 ∧ (t.seconds - Instant.databaseEpoch) * 10 ^ 9 + t.nanos = micros * 1000
  | .text s, .text t => s = t
  | .json j, .json s => ∃ x, Json.Says s x ∧ x.Means j
  | _, _ => False

theorem ofJson_text {s : String} (hType : column.type ≠ .json)
    (h : readLiteral? column.type s = some v) : ofJson column (.text s) = .ok v := by
  have hText : ofText column s = .ok v := by
    rw [ofText, h]
  rw [← hText]
  exact if_neg hType

theorem ofJson_bool {b : Bool} (hType : column.type = .boolean) :
    ofJson column (.bool b) = .ok (.bool b) := by
  simp [ofJson, hType, ofNonText?]

theorem ofJson_number {n : Json.Number} (hType : column.type ≠ .json)
    (h : ofNumber? column.type n = some v) : ofJson column (.number n) = .ok v := by
  simp [ofJson, hType, ofNonText?, h]

theorem ofJson_json {j : Json} (hType : column.type = .json) (h : j ≠ .null) :
    ofJson column j = .ok (.json j) := by
  cases j with
  | null => exact absurd rfl h
  | _ => exact if_pos hType

theorem ofJson_ofInt {n : Int} (hType : column.type = .integer) (h : -2 ^ 63 ≤ n ∧ n < 2 ^ 63) :
    ofJson column (.ofInt n) = .ok (.int n) := by
  have hFits : Numeral.fitsInt64 n = true := by
    rw [Numeral.fitsInt64, Bool.and_eq_true, decide_eq_true_iff, decide_eq_true_iff,
      Numeral.minInt64, Numeral.maxInt64]
    omega
  apply ofJson_number
  · rw [hType]
    decide
  · rw [hType, ofNumber?, Json.Number.int64?, if_pos hFits]
    rfl

theorem ofJson_ofBinary64 {x : Binary64} (hType : column.type = .float)
    (h : x.isFinite = true) : ofJson column (.ofBinary64 x) = .ok (.double x) := by
  rw [Json.ofBinary64, if_pos h]
  apply ofJson_number
  · rw [hType]
    decide
  · rw [hType]
    rfl

theorem ofJson_uuid {u : Uuid} (hType : column.type = .uuid) :
    ofJson column (.text u.toText) = .ok (.uuid u) := by
  apply ofJson_text
  · rw [hType]
    decide
  · rw [hType, readLiteral?, Uuid.toText, String.toList_ofList, Uuid.trim_write,
      Uuid.ofChars?_write]
    rfl

theorem ofJson_date {d : Date} (hType : column.type = .date) (h : d.isValid = true) :
    ofJson column (.text (String.ofList d.write)) = .ok (.text (String.ofList d.write)) := by
  apply ofJson_text
  · rw [hType]
    decide
  · rw [hType, readLiteral?, Text.trimmed, String.toList_ofList, trim_write]
    exact if_pos (isDate_write h)

theorem ofJson_instant {t : Instant} (hType : column.type = .datetime)
    (hRange : t.inRange = true) (hNanos : t.nanos < Instant.nanosPerSecond) :
    ofJson column (.text t.toRfc3339) = .ok (.instant t) := by
  apply ofJson_text
  · rw [hType]
    decide
  · rw [hType, readLiteral?, readInstant?_toRfc3339 hRange hNanos]
    rfl

theorem denotes_date {days : Int} {d : Date}
    (h : Date.IsDay (days + Instant.databaseEpoch / Instant.secondsPerDay) d) (hReal : d.IsReal) :
    (text (String.ofList d.write)).Denotes (.date days) := by
  refine ⟨d, h, ?_⟩
  rw [String.toList_ofList, read?_write hReal]
  rfl

theorem denotes_ofSingle {bits : Nat} (hBits : bits < 2 ^ 32)
    (hFinite : Binary64.singleIsFinite bits = true) :
    (double (.ofSingle bits)).Denotes (.float32 bits) := by
  have hWidens := Binary64.widens_ofSingle hFinite
  intro single hSingle
  constructor
  · exact fun h => h.unique hWidens hSingle hBits
  · rintro rfl
    exact hWidens

end BoundValue

namespace Instant

theorem nanos_ofDatabaseMicros (micros : Int) :
    (ofDatabaseMicros micros).nanos < nanosPerSecond := by
  simp only [ofDatabaseMicros, nanosPerSecond]
  omega

theorem denotes_ofDatabaseMicros (micros : Int) :
    (BoundValue.instant (ofDatabaseMicros micros)).Denotes (.timestampTz micros) := by
  refine ⟨nanos_ofDatabaseMicros micros, ?_⟩
  simp only [ofDatabaseMicros]
  omega

end Instant

namespace Cell

variable {column : Column} {c : Cell}

/-- Every cell that JSON shows is bound as it was when its JSON comes back. -/
theorem cells_are_written_back (hType : c.columnType? = some column.type) (hShown : c.IsShown) :
    ∃ v, BoundValue.ofJson column c.toJson = .ok v ∧ v.Denotes c := by
  cases c with
  | int16 n | int32 n | int64 n =>
    have hColumn : column.type = .integer := (Option.some.inj hType).symm
    simp only [IsShown] at hShown
    exact ⟨.int n, BoundValue.ofJson_ofInt hColumn (by omega), rfl⟩
  | float32 bits =>
    have hColumn : column.type = .float := (Option.some.inj hType).symm
    obtain ⟨hBits, hFinite⟩ := hShown
    have hDouble := (Binary64.widens_ofSingle hFinite).isFinite
    exact ⟨.double (.ofSingle bits), BoundValue.ofJson_ofBinary64 hColumn hDouble,
      BoundValue.denotes_ofSingle hBits hFinite⟩
  | float64 x =>
    have hColumn : column.type = .float := (Option.some.inj hType).symm
    exact ⟨.double x, BoundValue.ofJson_ofBinary64 hColumn hShown, rfl⟩
  | bool b =>
    have hColumn : column.type = .boolean := (Option.some.inj hType).symm
    exact ⟨.bool b, BoundValue.ofJson_bool hColumn, rfl⟩
  | uuid u =>
    have hColumn : column.type = .uuid := (Option.some.inj hType).symm
    exact ⟨.uuid u, BoundValue.ofJson_uuid hColumn, rfl⟩
  | date days =>
    have hColumn : column.type = .date := (Option.some.inj hType).symm
    obtain ⟨d, hDay, hYears⟩ := hShown
    have hDate := Date.isDay_iff.mp hDay
    have hReal : d.IsReal := by
      rw [hDate]
      exact Date.isReal_ofDayNumber _
    have hValid : d.isValid = true := Date.isValid_iff.mpr ⟨hReal, hYears⟩
    have hJson : toJson (.date days) = .text (String.ofList d.write) := by
      rw [toJson, dateJson, ← hDate]
      exact if_pos hValid
    rw [hJson]
    exact ⟨.text (String.ofList d.write), BoundValue.ofJson_date hColumn hValid,
      BoundValue.denotes_date hDay hReal⟩
  | timestampTz micros =>
    have hColumn : column.type = .datetime := (Option.some.inj hType).symm
    have hRange : (Instant.ofDatabaseMicros micros).inRange = true := hShown
    have hJson : toJson (.timestampTz micros) =
        .text (Instant.ofDatabaseMicros micros).toRfc3339 := if_pos hRange
    rw [hJson]
    exact ⟨.instant (Instant.ofDatabaseMicros micros),
      BoundValue.ofJson_instant hColumn hRange (Instant.nanos_ofDatabaseMicros micros),
      Instant.denotes_ofDatabaseMicros micros⟩
  | text s =>
    have hColumn : column.type = .text := (Option.some.inj hType).symm
    refine ⟨.text s, BoundValue.ofJson_text (by rw [hColumn]; decide) ?_, rfl⟩
    rw [hColumn]
    rfl
  | json s =>
    have hColumn : column.type = .json := (Option.some.inj hType).symm
    obtain ⟨x, hSays, hSome, hHeld, hDepth⟩ := hShown
    obtain ⟨j, hRead, hMeans⟩ := hSays.exists_readValue? hHeld hDepth
    have hJson : j ≠ .null := hMeans.ne_null hSome
    rw [toJson, hRead]
    exact ⟨.json j, BoundValue.ofJson_json hColumn hJson, x, hSays, hMeans⟩
  | null | time micros | timestamp micros | unreadable => cases hType

/-- 10000-01-01T00:00:00, the first instant whose year has a sign. -/
def signedInstant : Cell := .timestampTz 252455616000000000

def wholeNumber (negative : Bool) (digits : String) : Json.NumberText :=
  ⟨negative, digits.toList, [], none⟩

theorem wellFormed_wholeNumber {negative : Bool} {digits : String}
    (hDigits : Numeral.isDigits digits.toList = true) (hZero : digits.toList.head? ≠ some '0') :
    (wholeNumber negative digits).WellFormed := by
  obtain ⟨hSome, hAll⟩ := Numeral.isDigits_eq_true_iff.mp hDigits
  exact ⟨hSome, hAll, fun h => absurd h hZero, nofun, nofun⟩

/-- A half, which a double is. -/
def half : Json.NumberText := ⟨false, ['0'], ['5'], none⟩

theorem half_isHeld : (Json.Exact.number half).IsHeld := by
  have hShortest : (⟨0x3FE0000000000000⟩ : Binary64).shortest = (5, -1) := by decide +kernel
  have hPositive : (⟨0x3FE0000000000000⟩ : Binary64).isNegative = false := by decide +kernel
  have hDigits : Numeral.ofDigits (['0'] ++ ['5']) = 5 := rfl
  refine ⟨.double ⟨0x3FE0000000000000⟩, by decide +kernel, ?_⟩
  rw [Json.Number.value_double (by decide +kernel), hShortest, hPositive]
  simp only [Json.NumberText.value, Json.NumberText.power, half, hDigits]
  norm_num

def sampleObject : String := "\x7b \"id\": [-3, 0.5] \x7d"

def sampleContent : Json.Exact :=
  .object [([.char 'i', .char 'd'], .array [.number (wholeNumber true "3"), .number half])]

theorem says_sampleObject : Json.Says sampleObject sampleContent := by
  have hThree : (wholeNumber true "3").WellFormed :=
    wellFormed_wholeNumber (by decide) (by decide)
  have hHalf : half.WellFormed :=
    ⟨nofun, List.all_eq_true.mp rfl, fun _ => rfl, List.all_eq_true.mp rfl, nofun⟩
  have hKey : Json.Exact.SpellsKey " \"id\": [-3, 0.5] \x7d".toList [.char 'i', .char 'd']
      " [-3, 0.5] \x7d".toList :=
    ⟨"id\": [-3, 0.5] \x7d".toList, ": [-3, 0.5] \x7d".toList, rfl,
      .plain (by decide) (by decide) (by decide)
        (.plain (by decide) (by decide) (by decide) (.done _)), rfl⟩
  have hFirst : Json.Exact.SpellsNumber "-3, 0.5] \x7d".toList (wholeNumber true "3")
      ", 0.5] \x7d".toList :=
    ⟨hThree, fun c hc => by cases hc; rfl, "-3".toList, ⟨[], .none, rfl⟩, rfl⟩
  have hSecond : Json.Exact.SpellsNumber "0.5] \x7d".toList half "] \x7d".toList :=
    ⟨hHalf, fun c hc => by cases hc; rfl, "0.5".toList, ⟨[], .none, rfl⟩, rfl⟩
  have hItems : Json.Exact.SpellsItems "-3, 0.5] \x7d".toList
      [.number (wholeNumber true "3"), .number half] " \x7d".toList :=
    .more (.number hFirst) rfl (.last (.number hSecond) rfl)
  exact ⟨[], .object (.last hKey (.array hItems) rfl), rfl⟩

theorem sampleObject_isShown : (json sampleObject).IsShown := by
  have hThree : (Json.Exact.number (wholeNumber true "3")).IsHeld :=
    Json.Exact.isHeld_of_isInteger (by decide) (by decide)
  have hDepth : sampleContent.depth ≤ Json.Document.maxDepth := by decide +kernel
  exact ⟨sampleContent, says_sampleObject, nofun, ⟨rfl, ⟨hThree, half_isHeld, trivial⟩, trivial⟩,
    hDepth⟩

/-- An instant of a year with a sign and JSON with numbers are bound as they were. -/
theorem samples_are_written_back :
    signedInstant.columnType? = some DataType.datetime ∧ signedInstant.IsShown ∧
    signedInstant.toJson = .text "+10000-01-01T00:00:00+00:00" ∧
    (∃ v, BoundValue.ofJson { name := "at", type := .datetime } signedInstant.toJson = .ok v ∧
      v.Denotes signedInstant) ∧
    (json sampleObject).columnType? = some DataType.json ∧ (json sampleObject).IsShown ∧
    ∃ v, BoundValue.ofJson { name := "meta", type := .json } (json sampleObject).toJson = .ok v ∧
      v.Denotes (json sampleObject) := by
  have hShown : signedInstant.IsShown := by
    change (Instant.ofDatabaseMicros 252455616000000000).inRange = true
    decide
  exact ⟨rfl, hShown, rfl, cells_are_written_back rfl hShown, rfl, sampleObject_isShown,
    cells_are_written_back rfl sampleObject_isShown⟩

/-- An integer that takes more than 64 bits. -/
def longNumber : String := "18446744073709551617"

theorem says_longNumber : Json.Says longNumber (.number (wholeNumber false longNumber)) := by
  have hForm : (wholeNumber false longNumber).WellFormed :=
    wellFormed_wholeNumber (by decide) (by decide)
  exact ⟨[], .number ⟨hForm, nofun, longNumber.toList, ⟨[], .none, rfl⟩, rfl⟩, rfl⟩

/-- It is read as the double next to it. -/
theorem readValue?_longNumber :
    Json.readValue? longNumber = some (.number (.double ⟨0x43F0000000000000⟩)) := by
  have hNumber : (wholeNumber false longNumber).number? =
      some (.double ⟨0x43F0000000000000⟩) := by
    decide +kernel
  rw [Json.readValue?, says_longNumber.read?_eq, Option.bind_some, Json.Exact.toDocument, hNumber]
  rfl

/-- A long integer is bound as another number. -/
theorem longNumber_is_rounded :
    (json longNumber).columnType? = some DataType.json ∧
    (∃ x, Json.Says longNumber x ∧ x ≠ .null) ∧
    ¬ ∃ v, BoundValue.ofJson { name := "Meta", type := .json } (json longNumber).toJson = .ok v ∧
      v.Denotes (json longNumber) := by
  refine ⟨rfl, ⟨_, says_longNumber, nofun⟩, ?_⟩
  rintro ⟨v, hBound, hDenotes⟩
  rw [toJson, readValue?_longNumber] at hBound
  cases hBound
  obtain ⟨x, hSays, hMeans⟩ := hDenotes
  obtain rfl := hSays.unique says_longNumber
  cases hMeans with
  | number hValue =>
    have hSize : (⟨0x43F0000000000000⟩ : Binary64).size ≠ 0 := by decide +kernel
    have hShortest : (⟨0x43F0000000000000⟩ : Binary64).shortest = (18446744073709552, 3) := by
      decide +kernel
    have hPositive : (⟨0x43F0000000000000⟩ : Binary64).isNegative = false := by decide +kernel
    have hDigits : Numeral.ofDigits (longNumber.toList ++ []) = 18446744073709551617 := by
      decide +kernel
    rw [Json.Number.value_double hSize, hShortest, hPositive] at hValue
    simp only [Json.NumberText.value, Json.NumberText.power, wholeNumber, hDigits,
      Binary64.signed] at hValue
    norm_num at hValue

/-- JSON that is nested too deep, or with a number or a string that no value has, is lost: null is
bound for it. -/
theorem unread_json_is_lost {s : String} {x : Json.Exact} (hSays : Json.Says s x)
    (hUnread : Json.Document.maxDepth < x.depth ∨ x.toDocument.value? = none) :
    BoundValue.ofJson column (json s).toJson = .ok .null := by
  have hNone : Json.readValue? s = none := by
    rw [Json.readValue?, hSays.read?_eq, Option.bind_some, Json.Document.valueWithin?,
      Nat.zero_add]
    rcases hUnread with hDeep | hNone
    · exact if_neg (Nat.not_le.mpr hDeep)
    · rw [hNone, ite_self]
  rw [toJson, hNone]
  rfl

end Cell

end TableGateway
