import TableGateway.Proofs.Calendar.Format

/-!
# One reading for a text

The formats of instants overlap: what one takes, another may take as well. One reader does what all
of them do, as widely as any of them, and it has one answer. So the formats that take a text agree
on what it says, and their order does not count.
-/

namespace TableGateway.Calendar

open Text (Stops)

variable {cs rest : List Char} {r r' : Reading} {item item' : Item} {items items' more : Format}
  {rule rule' : OffsetRule}

/-- Reads the items one after the other, and returns what is left over. -/
def Format.front? : Format → Reading → List Char → Option (Reading × List Char)
  | [], r, cs => some (r, cs)
  | item :: items, r, cs => (item.read? r cs).bind fun p => Format.front? items p.1 p.2

theorem Format.read?_append (items more : Format) (r : Reading) (cs : List Char) :
    Format.read? (items ++ more) r cs =
      (items.front? r cs).bind fun p => Format.read? more p.1 p.2 := by
  induction items generalizing r cs with
  | nil => rfl
  | cons item items ih =>
    rw [List.cons_append, read?, front?, Option.bind_assoc]
    exact Option.bind_congr fun p _ => ih p.1 p.2

theorem Format.read?_nil_eq_some_iff : Format.read? [] r cs = some r' ↔ cs = [] ∧ r = r' := by
  rw [read?, Option.ite_none_right_eq_some, List.isEmpty_iff, Option.some_inj]

/-- The second item takes what the first one takes, and says the same. -/
def Item.Widens (item item' : Item) : Prop :=
  ∀ ⦃r r' : Reading⦄ ⦃cs rest : List Char⦄,
    item.read? r cs = some (r', rest) → item'.read? r cs = some (r', rest)

theorem Item.widens_refl (item : Item) : item.Widens item := fun _ _ _ _ h => h

theorem Item.widens_loose (field : Field) : (Item.fixed field).Widens (.loose field) := by
  intro r r' cs rest h
  obtain ⟨ds, rfl, hFixed⟩ := Item.read?_eq_some_iff.mp h
  cases hFixed with | fixed hNumber hSet =>
  have hBare : IsNumber 1 field.width ds rest :=
    { hNumber with atLeast := field.width_pos.trans hNumber.atLeast }
  exact Item.read?_eq_some_iff.mpr ⟨[] ++ ds, rfl, .loose nofun (.bare hBare) hSet⟩

/-- The widest rule of offsets. -/
def anyRule : OffsetRule := ⟨true, true, true⟩

theorem anyRule_loose : anyRule.loose = true := rfl

theorem OffsetRule.Separates.widen {sep : List Char} (h : rule.Separates sep) :
    anyRule.Separates sep := by
  rw [Separates] at h
  rw [Separates, if_pos anyRule_loose]
  split at h
  · exact h
  · rintro c hc
    rw [h, List.mem_singleton] at hc
    exact .inl hc

theorem OffsetRule.Leads.widen {bs : List Char} (h : rule.Leads bs) : anyRule.Leads bs :=
  ⟨h.1, nofun⟩

theorem OffsetRule.Spells.widen {piece : List Char} {n : Int} (h : rule.Spells piece rest n) :
    anyRule.Spells piece rest n := by
  cases h with
  | utc hLeads _ hLetter => exact .utc hLeads.widen rfl hLetter
  | numeric hLeads hNumeric =>
    refine .numeric hLeads.widen ?_
    cases hNumeric with
    | hours hSign hHours hSeparates _ => exact .hours hSign hHours hSeparates.widen rfl
    | minutes hSign hHours hSeparates hMinutes hMost =>
      exact .minutes hSign hHours hSeparates.widen hMinutes hMost

theorem Item.widens_anyOffset (rule : OffsetRule) : (Item.offset rule).Widens anyOffset := by
  intro r r' cs rest h
  obtain ⟨piece, rfl, hOffset⟩ := Item.read?_eq_some_iff.mp h
  cases hOffset with | offset hSpells =>
  exact Item.read?_eq_some_iff.mpr ⟨piece, rfl, .offset hSpells.widen⟩

theorem Format.read?_of_widens (h : List.Forall₂ Item.Widens items items')
    (hRead : items.read? r cs = some r') : items'.read? r cs = some r' := by
  induction h generalizing r cs with
  | nil => exact hRead
  | cons hItem _ ih =>
    obtain ⟨⟨next, rest⟩, hFirst, hRest⟩ := Option.bind_eq_some_iff.mp hRead
    exact Option.bind_eq_some_iff.mpr ⟨_, hItem hFirst, ih hRest⟩

def secondItems : Format := [.mark [':'], .loose .second, .fraction]

/-- Hours and minutes, then seconds if there is more, then an offset if there is still more. -/
def readTime? (r : Reading) (cs : List Char) : Option Reading :=
  (minuteFormat.front? r cs).bind fun p =>
    if p.2 = [] then some p.1
    else (secondItems.front? p.1 p.2).bind fun p =>
      if p.2 = [] then some p.1 else Format.read? [anyOffset] p.1 p.2

/-- What follows a date, without the letter or the blanks in front of a time. -/
def afterDate : List Char → List Char
  | 't' :: cs => cs
  | 'T' :: cs => cs
  | cs => Text.trimStart cs

def readAny? (cs : List Char) : Option Reading :=
  (dateFormat.front? {} cs).bind fun p =>
    if p.2 = [] then some p.1 else readTime? p.1 (afterDate p.2)

/-- The reader of times takes what the items take, and says the same. -/
def IsTime (items : Format) : Prop :=
  ∀ ⦃r r' : Reading⦄ ⦃cs : List Char⦄, items.read? r cs = some r' → readTime? r cs = some r'

theorem isTime_minute : IsTime minuteFormat := by
  intro r r' cs h
  rw [← List.append_nil minuteFormat, Format.read?_append] at h
  obtain ⟨p, hFront, hEnd⟩ := Option.bind_eq_some_iff.mp h
  obtain ⟨hNone, rfl⟩ := Format.read?_nil_eq_some_iff.mp hEnd
  rw [readTime?, hFront, Option.bind_some, if_pos hNone]

/-- Something is left for the seconds if they are read. -/
theorem ne_nil_of_front?_secondItems {p : Reading × List Char}
    (h : secondItems.front? r cs = some p) : cs ≠ [] := by
  rintro rfl
  cases h

theorem ne_nil_of_readOffset (h : Format.read? [.offset rule] r cs = some r') : cs ≠ [] := by
  rintro rfl
  obtain ⟨p, hItem, -⟩ := Option.bind_eq_some_iff.mp h
  obtain ⟨_, hOffset, _⟩ := Option.map_eq_some_iff.mp hItem
  obtain ⟨loose, allowZ, allowHoursOnly⟩ := rule
  cases loose <;> cases hOffset

theorem isTime_of_tail (h : ∀ r r' cs, Format.read? more r cs = some r' →
    (if cs = [] then some r else Format.read? [anyOffset] r cs) = some r') :
    IsTime (secondFormat ++ more) := by
  intro r r' cs hRead
  have hItems : secondFormat ++ more = minuteFormat ++ (secondItems ++ more) := rfl
  rw [hItems, Format.read?_append] at hRead
  obtain ⟨p, hMinute, hRead⟩ := Option.bind_eq_some_iff.mp hRead
  rw [Format.read?_append] at hRead
  obtain ⟨p', hSecond, hTail⟩ := Option.bind_eq_some_iff.mp hRead
  rw [readTime?, hMinute, Option.bind_some, if_neg (ne_nil_of_front?_secondItems hSecond), hSecond,
    Option.bind_some]
  exact h _ _ _ hTail

theorem isTime_second : IsTime secondFormat := by
  rw [← List.append_nil secondFormat]
  apply isTime_of_tail
  intro r r' cs h
  obtain ⟨rfl, rfl⟩ := Format.read?_nil_eq_some_iff.mp h
  rfl

theorem isTime_offset (rule : OffsetRule) : IsTime (secondFormat ++ [.offset rule]) := by
  apply isTime_of_tail
  intro r r' cs h
  rw [if_neg (ne_nil_of_readOffset h)]
  exact Format.read?_of_widens (.cons (Item.widens_anyOffset rule) .nil) h

theorem trimStart_trimStart (cs : List Char) :
    Text.trimStart (Text.trimStart cs) = Text.trimStart cs :=
  trimStart_eq_iff.mpr ⟨[], rfl, nofun, Text.stops_dropWhile _ _⟩

theorem readTime?_trimStart (r : Reading) (cs : List Char) :
    readTime? r (Text.trimStart cs) = readTime? r cs := by
  have hHour : (Item.loose .hour).read? r (Text.trimStart cs) = (Item.loose .hour).read? r cs := by
    rw [Item.read?, Item.read?, trimStart_trimStart]
  rw [readTime?, readTime?, minuteFormat, Format.front?, Format.front?, hHour]

/-- A time begins with a digit, blanks aside. -/
theorem readTime?_eq_none (hBlank : Stops Text.isBlank cs) (hDigit : Stops Char.isDigit cs) :
    readTime? r cs = none := by
  have hStart : Text.trimStart cs = cs := trimStart_eq_iff.mpr ⟨[], rfl, nofun, hBlank⟩
  have hNone : readLoose? .hour cs = none := by
    rw [Option.eq_none_iff_forall_ne_some]
    rintro ⟨n, rest⟩ hRead
    obtain ⟨piece, rfl, hSpells⟩ := readLoose?_eq_some_iff.mp hRead
    cases hSpells with | bare hNumber =>
    obtain ⟨d, more, rfl, hFirst⟩ := hNumber.exists_cons
    have hOther := hDigit d rfl
    rw [hFirst] at hOther
    cases hOther
  have hItem : (Item.loose .hour).read? r cs = none := by
    rw [Item.read?, hStart, hNone]
    rfl
  rw [readTime?, minuteFormat, Format.front?, hItem]
  rfl

/-- Where a time follows, the letter or the blanks in front of it are recognized. -/
theorem readTime?_afterDate (h : readTime? r (Text.trimStart cs) = some r') :
    cs ≠ [] ∧ readTime? r (afterDate cs) = some r' := by
  have hLetter {c : Char} {rest : List Char} (hBlank : Text.isBlank c = false)
      (hDigit : c.isDigit = false) : readTime? r (Text.trimStart (c :: rest)) = none := by
    rw [readTime?_trimStart]
    apply readTime?_eq_none
    · rintro _ ⟨⟩
      exact hBlank
    · rintro _ ⟨⟩
      exact hDigit
  constructor
  · rintro rfl
    rw [readTime?_trimStart, readTime?_eq_none (by rintro _ ⟨⟩) (by rintro _ ⟨⟩)] at h
    cases h
  · rw [afterDate.eq_def]
    split
    · rw [hLetter (by decide) (by decide)] at h
      cases h
    · rw [hLetter (by decide) (by decide)] at h
      cases h
    · exact h

theorem readAny?_of_front {rest : List Char} (hDate : dateFormat.front? {} cs = some (r, rest))
    (hSome : rest ≠ []) (hTime : readTime? r (afterDate rest) = some r') :
    readAny? cs = some r' := by
  rw [readAny?, hDate, Option.bind_some, if_neg hSome, hTime]

theorem readAny?_of_mark {options : List Char} (hOptions : ∀ c ∈ options, c ∈ ['t', 'T', ' '])
    (hTime : IsTime items) (h : (dateFormat ++ .mark options :: items).read? {} cs = some r) :
    readAny? cs = some r := by
  rw [Format.read?_append] at h
  obtain ⟨⟨date, rest⟩, hDate, h⟩ := Option.bind_eq_some_iff.mp h
  obtain ⟨⟨_, behind⟩, hMark, h⟩ := Option.bind_eq_some_iff.mp h
  obtain ⟨_, rfl, hSpells⟩ := Item.read?_eq_some_iff.mp hMark
  cases hSpells with | mark hOption =>
  have hBehind := hTime h
  refine readAny?_of_front hDate (List.cons_ne_nil _ _) ?_
  have hMarks := hOptions _ hOption
  simp only [List.mem_cons, List.not_mem_nil, or_false] at hMarks
  rcases hMarks with rfl | rfl | rfl
  · exact hBehind
  · exact hBehind
  · have hSpace : Text.trimStart (' ' :: behind) = Text.trimStart behind := rfl
    have hAfter : afterDate ([' '] ++ behind) = Text.trimStart (' ' :: behind) := rfl
    rw [hAfter, hSpace, readTime?_trimStart]
    exact hBehind

theorem readAny?_of_blanks (hTime : IsTime items)
    (h : (dateFormat ++ .blanks :: items).read? {} cs = some r) : readAny? cs = some r := by
  rw [Format.read?_append] at h
  obtain ⟨⟨date, rest⟩, hDate, h⟩ := Option.bind_eq_some_iff.mp h
  obtain ⟨hSome, hAfter⟩ := readTime?_afterDate (hTime h)
  exact readAny?_of_front hDate hSome hAfter

theorem readAny?_of_date (h : dateFormat.read? {} cs = some r) : readAny? cs = some r := by
  rw [← List.append_nil dateFormat, Format.read?_append] at h
  obtain ⟨p, hDate, hEnd⟩ := Option.bind_eq_some_iff.mp h
  obtain ⟨hNone, rfl⟩ := Format.read?_nil_eq_some_iff.mp hEnd
  rw [readAny?, hDate, Option.bind_some, if_pos hNone]

/-- RFC 3339 with every number allowed to be shorter. -/
def looseRfc3339Format : Format :=
  dateFormat ++ .mark ['t', 'T', ' '] :: (secondFormat ++ [.offset ⟨false, true, false⟩])

theorem widens_rfc3339 : List.Forall₂ Item.Widens rfc3339Format looseRfc3339Format := by
  have hLoose (field : Field) := Item.widens_loose field
  have hSame (item : Item) := item.widens_refl
  exact .cons (hLoose _) (.cons (hSame _) (.cons (hLoose _) (.cons (hSame _) (.cons (hLoose _)
    (.cons (hSame _) (.cons (hLoose _) (.cons (hSame _) (.cons (hLoose _) (.cons (hSame _)
      (.cons (hLoose _) (.cons (hSame _) (.cons (hSame _) .nil))))))))))))

theorem readAny?_of_mem {format : Format} (h : format ∈ instantFormats)
    (hRead : format.read? {} cs = some r) : readAny? cs = some r := by
  simp only [instantFormats, List.mem_cons, List.not_mem_nil, or_false] at h
  rcases h with rfl | rfl | rfl | rfl | rfl | rfl | rfl | rfl
  · have hWide := Format.read?_of_widens widens_rfc3339 hRead
    exact readAny?_of_mark (by simp) (isTime_offset _) hWide
  · exact readAny?_of_mark (by simp) (isTime_offset _) hRead
  · exact readAny?_of_blanks (isTime_offset _) hRead
  · exact readAny?_of_blanks (isTime_offset _) hRead
  · exact readAny?_of_mark (by simp) isTime_second hRead
  · exact readAny?_of_blanks isTime_second hRead
  · exact readAny?_of_mark (by simp) isTime_minute hRead
  · exact readAny?_of_date hRead

/-- A text says the same in every format that takes it. -/
theorem reading_unique {format format' : Format} (h : format ∈ instantFormats)
    (h' : format' ∈ instantFormats) (hRead : format.read? {} cs = some r)
    (hRead' : format'.read? {} cs = some r') : r = r' :=
  Option.some.inj ((readAny?_of_mem h hRead).symm.trans (readAny?_of_mem h' hRead'))

/-- What a text says in some format is what counts, whichever format is tried first. -/
theorem readInstant?_eq {format : Format} {s : String} (h : format ∈ instantFormats)
    (hRead : format.read? {} (Text.trim s.toList) = some r) : readInstant? s = r.instant? := by
  have hOther {format' : Format} (h' : format' ∈ instantFormats) {t : Instant}
      (ht : readFormat? (Text.trim s.toList) format' = some t) : r.instant? = some t := by
    obtain ⟨r', hRead', hInstant⟩ := Option.bind_eq_some_iff.mp ht
    rw [reading_unique h h' hRead hRead']
    exact hInstant
  have hFormat : readFormat? (Text.trim s.toList) format = r.instant? := by
    rw [readFormat?, hRead, Option.bind_some]
  cases hFound : readInstant? s with
  | some t =>
    obtain ⟨format', h', ht⟩ := List.exists_of_findSome?_eq_some hFound
    exact (hOther h' ht).symm
  | none =>
    rw [← hFormat]
    exact (List.findSome?_eq_none_iff.mp hFound format h).symm

end TableGateway.Calendar
