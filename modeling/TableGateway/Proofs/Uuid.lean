import TableGateway.Proofs.Text.Blank
import TableGateway.Uuid

/-!
# How UUIDs are spelled

The reader takes the spellings of the 32 digits and nothing else. The hyphenated one, in which UUIDs
are written, is read as the UUID that was written.
-/

namespace TableGateway.Uuid

variable {cs ds : List Char} {c : Char} {n : Fin 16} {u : Uuid}

theorem mapM_hexDigit?_eq_some_iff {ns : List (Fin 16)} :
    ds.mapM hexDigit? = some ns ↔ ds.map hexDigit? = ns.map some := by
  induction ds generalizing ns with
  | nil =>
    rw [List.mapM_nil, List.map_nil, List.nil_eq, List.map_eq_nil_iff]
    exact ⟨fun h => (Option.some.inj h).symm, fun h => congrArg some h.symm⟩
  | cons c ds ih =>
    rw [List.mapM_cons, List.map_cons]
    constructor
    · intro h
      obtain ⟨n, hFirst, h⟩ := Option.bind_eq_some_iff.mp h
      obtain ⟨ns, hRest, h⟩ := Option.bind_eq_some_iff.mp h
      cases h
      rw [hFirst, ih.mp hRest, List.map_cons]
    · intro h
      obtain ⟨n, ns, rfl, hFirst, hRest⟩ := List.map_eq_cons_iff.mp h.symm
      refine Option.bind_eq_some_iff.mpr ⟨n, hFirst.symm, ?_⟩
      exact Option.bind_eq_some_iff.mpr ⟨ns, ih.mpr hRest.symm, rfl⟩

/-- The characters are the digits of the UUID, in small or capital letters. -/
def Denotes (ds : List Char) (u : Uuid) : Prop := ds.map hexDigit? = u.digits.map some

theorem ofHex?_eq_some_iff : ofHex? ds = some u ↔ Denotes ds u := by
  rw [Denotes, ← mapM_hexDigit?_eq_some_iff, ofHex?.eq_def]
  split
  · next hNone => simp [hNone]
  · next ns hRead =>
    rw [hRead, Option.dite_none_right_eq_some, Option.some_inj]
    constructor
    · rintro ⟨hLength, hUuid⟩
      cases hUuid
      rfl
    · rintro rfl
      exact ⟨u.length_digits, rfl⟩

theorem Denotes.exists_digit (h : Denotes ds u) (hc : c ∈ ds) : ∃ n, hexDigit? c = some n := by
  have hDigit : hexDigit? c ∈ u.digits.map some := h ▸ List.mem_map_of_mem hc
  obtain ⟨n, -, hn⟩ := List.mem_map.mp hDigit
  exact ⟨n, hn.symm⟩

theorem Denotes.exists_cons (h : Denotes ds u) :
    ∃ c rest n, ds = c :: rest ∧ hexDigit? c = some n := by
  cases ds with
  | nil =>
    have hNone : u.digits = [] := List.map_eq_nil_iff.mp h.symm
    have hLength := u.length_digits
    rw [hNone] at hLength
    cases hLength
  | cons c rest =>
    obtain ⟨n, hDigit⟩ := h.exists_digit List.mem_cons_self
    exact ⟨c, rest, n, rfl, hDigit⟩

theorem ne_of_hexDigit? {d : Char} (h : hexDigit? c = some n) (hNone : hexDigit? d = none) :
    c ≠ d := by
  rintro rfl
  cases h.symm.trans hNone

/-- No digit is the letter that a URN begins with. -/
theorem toLower_ne_u (h : hexDigit? c = some n) : c.toLower ≠ 'u' := by
  intro hLower
  have hLetter : c = 'u' ∨ c = 'U' := by
    by_cases hRange : 65 ≤ c.val ∧ c.val ≤ 90
    · have hLowered : Char.mk (c.val + 32) _ = 'u' := (dif_pos hRange).symm.trans hLower
      have hUpper : c.val = 85 := (UInt32.add_left_inj 32).mp (congrArg Char.val hLowered)
      exact .inr (Char.ext hUpper)
    · exact .inl ((dif_neg hRange).symm.trans hLower)
  rcases hLetter with rfl | rfl <;> cases h

theorem Denotes.ne_hyphen (h : Denotes ds u) : ∀ c ∈ ds, c ≠ '-' := by
  intro c hc
  obtain ⟨n, hDigit⟩ := h.exists_digit hc
  exact ne_of_hexDigit? hDigit rfl

/-- Without its hyphens the spelling is the plain one. -/
theorem filter_hyphenate (h : ∀ c ∈ cs, c ≠ '-') : (hyphenate cs).filter (· != '-') = cs := by
  have hKept {part : List Char} (hPart : ∀ c ∈ part, c ∈ cs) : part.filter (· != '-') = part := by
    apply List.filter_eq_self.mpr
    intro c hc
    exact bne_iff_ne.mpr (h c (hPart c hc))
  have hTake (n m : Nat) : ((cs.drop n).take m).filter (· != '-') = (cs.drop n).take m :=
    hKept fun c hc => List.mem_of_mem_drop (List.mem_of_mem_take hc)
  have hFirst : (cs.take 8).filter (· != '-') = cs.take 8 := hTake 0 8
  have hLast : (cs.drop 20).filter (· != '-') = cs.drop 20 :=
    hKept fun c hc => List.mem_of_mem_drop hc
  have hHyphen (part : List Char) :
      ('-' :: part).filter (· != '-') = part.filter (· != '-') := rfl
  simp only [hyphenate, List.filter_append, hHyphen, hTake, hFirst, hLast]
  have hJoin (n m : Nat) : (cs.drop n).take m ++ cs.drop (n + m) = cs.drop n := by
    rw [← List.drop_drop, List.take_append_drop]
  rw [List.append_assoc, List.append_assoc, List.append_assoc, hJoin 16 4, hJoin 12 4, hJoin 8 4,
    List.take_append_drop]

/-- The spellings of these digits. -/
inductive Spells (ds : List Char) : List Char → Prop
  | plain : Spells ds ds
  | hyphenated : Spells ds (hyphenate ds)
  | braced : Spells ds ('\x7b' :: (hyphenate ds ++ ['\x7d']))
  | urn {front : List Char} (h : front.map Char.toLower = urn) : Spells ds (front ++ hyphenate ds)

theorem ofHyphenated?_eq_some_iff :
    ofHyphenated? cs = some u ↔ ∃ ds, Denotes ds u ∧ cs = hyphenate ds := by
  rw [ofHyphenated?, Option.ite_none_right_eq_some, ofHex?_eq_some_iff]
  constructor
  · rintro ⟨hPlaces, hDigits⟩
    exact ⟨_, hDigits, hPlaces.symm⟩
  · rintro ⟨ds, hDigits, rfl⟩
    rw [filter_hyphenate hDigits.ne_hyphen]
    exact ⟨rfl, hDigits⟩

theorem mapM_hexDigit?_of_hyphen (h : '-' ∈ cs) : cs.mapM hexDigit? = none := by
  rw [Option.eq_none_iff_forall_ne_some]
  intro ns hRead
  have hDigit := List.mem_map_of_mem (f := hexDigit?) h
  rw [mapM_hexDigit?_eq_some_iff.mp hRead] at hDigit
  obtain ⟨n, -, hn⟩ := List.mem_map.mp hDigit
  cases hn

theorem ofHex?_hyphenate (ds : List Char) : ofHex? (hyphenate ds) = none := by
  have hHyphen : '-' ∈ hyphenate ds := by simp [hyphenate]
  rw [ofHex?, mapM_hexDigit?_of_hyphen hHyphen]

/-- What begins with a digit is read as one of the two spellings without a frame. -/
theorem ofChars?_of_digit (h : hexDigit? c = some n) :
    ofChars? (c :: cs) = (ofHex? (c :: cs)).or (ofHyphenated? (c :: cs)) := by
  have hUrn : ¬ ((c :: cs).take urn.length).map Char.toLower = urn := by
    intro hEq
    exact toLower_ne_u h (List.cons.inj hEq).1
  rw [ofChars?.eq_def]
  split
  · next hBrace => exact absurd (List.cons.inj hBrace).1 (ne_of_hexDigit? h rfl)
  · exact if_neg hUrn

theorem hyphenate_cons (c : Char) (cs : List Char) : ∃ rest, hyphenate (c :: cs) = c :: rest :=
  ⟨_, rfl⟩

theorem ofChars?_eq_some_iff : ofChars? cs = some u ↔ ∃ ds, Denotes ds u ∧ Spells ds cs := by
  constructor
  · intro h
    rw [ofChars?.eq_def] at h
    split at h
    · next behind =>
      obtain ⟨hBrace, hRead⟩ := Option.ite_none_right_eq_some.mp h
      obtain ⟨ds, hDigits, hInner⟩ := ofHyphenated?_eq_some_iff.mp hRead
      obtain ⟨inner, rfl⟩ := List.getLast?_eq_some_iff.mp hBrace
      rw [List.dropLast_concat] at hInner
      exact ⟨ds, hDigits, hInner ▸ .braced⟩
    · split at h
      · next hUrn =>
        obtain ⟨ds, hDigits, hInner⟩ := ofHyphenated?_eq_some_iff.mp h
        rw [← List.take_append_drop urn.length cs, hInner]
        exact ⟨ds, hDigits, .urn hUrn⟩
      · rcases Option.or_eq_some_iff.mp h with hHex | ⟨-, hHyphenated⟩
        · exact ⟨cs, ofHex?_eq_some_iff.mp hHex, .plain⟩
        · obtain ⟨ds, hDigits, rfl⟩ := ofHyphenated?_eq_some_iff.mp hHyphenated
          exact ⟨ds, hDigits, .hyphenated⟩
  · rintro ⟨ds, hDigits, hSpells⟩
    have hHyphenated : ofHyphenated? (hyphenate ds) = some u :=
      ofHyphenated?_eq_some_iff.mpr ⟨ds, hDigits, rfl⟩
    obtain ⟨c, rest, n, hCons, hDigit⟩ := hDigits.exists_cons
    cases hSpells with
    | plain =>
      rw [hCons, ofChars?_of_digit hDigit, ← hCons, ofHex?_eq_some_iff.mpr hDigits]
      rfl
    | hyphenated =>
      obtain ⟨behind, hFirst⟩ := hyphenate_cons c rest
      rw [hCons, hFirst, ofChars?_of_digit hDigit, ← hFirst, ← hCons, ofHex?_hyphenate,
        hHyphenated]
      rfl
    | braced =>
      rw [ofChars?, List.getLast?_concat, if_pos rfl, List.dropLast_concat, hHyphenated]
    | @urn front hUrn =>
      -- The braced spelling is tried before, but no URN begins with a brace.
      have hLength : front.length = urn.length := by
        rw [← hUrn, List.length_map]
      rw [ofChars?.eq_def]
      split
      · next hBrace =>
        have hFirst : (front ++ hyphenate ds).head? = some '\x7b' := congrArg List.head? hBrace
        cases front with
        | nil => cases hUrn
        | cons c front =>
          cases hFirst
          cases (List.cons.inj hUrn).1
      · rw [List.take_left' hLength, if_pos hUrn, List.drop_left' hLength, hHyphenated]

theorem isBlank_hexDigit : ∀ n : Fin 16, Text.isBlank (hexDigit n) = false := by
  decide

theorem denotes_digits (u : Uuid) : Denotes (u.digits.map hexDigit) u := by
  rw [Denotes, List.map_map]
  exact List.map_congr_left fun n _ => hexDigit?_hexDigit n

theorem filter_write (u : Uuid) : u.write.filter (· != '-') = u.digits.map hexDigit :=
  filter_hyphenate (denotes_digits u).ne_hyphen

theorem ofChars?_write (u : Uuid) : ofChars? u.write = some u :=
  ofChars?_eq_some_iff.mpr ⟨_, denotes_digits u, .hyphenated⟩

theorem trim_write (u : Uuid) : Text.trim u.write = u.write := by
  apply Text.trim_of_not_blank
  intro c hc
  by_cases hHyphen : c = '-'
  · rw [hHyphen]
    decide
  · have hDigit : c ∈ u.digits.map hexDigit := by
      rw [← filter_write]
      exact List.mem_filter.mpr ⟨hc, bne_iff_ne.mpr hHyphen⟩
    obtain ⟨n, -, rfl⟩ := List.mem_map.mp hDigit
    exact isBlank_hexDigit n

end TableGateway.Uuid
