import Mathlib.Data.List.TakeWhile
import TableGateway.Proofs.Outcome
import TableGateway.Proofs.Text.Run
import TableGateway.Query.Filter.Lexeme

/-!
# Cutting a filter into lexemes

Which texts are cut into which lexemes, said without the scanner. A quoted string ends at its first
quote that is not doubled, and a bare word goes on as long as it can. The scanner finds exactly
these lexemes.
-/

namespace TableGateway.Lexeme

theorem isWordChar_iff {c : Char} :
    isWordChar c = true ↔
      Text.isBlank c = false ∧ c ≠ '(' ∧ c ≠ ')' ∧ c ≠ ',' ∧ c ≠ '\'' := by
  simp [isWordChar, isDelimiter, and_assoc]

/-- The text is cut into the lexemes. -/
inductive Cuts : List Char → List Lexeme → Prop
  | nil : Cuts [] []
  | blank {c cs ls} : Text.isBlank c = true → Cuts cs ls → Cuts (c :: cs) ls
  | opening {cs ls} : Cuts cs ls → Cuts ('(' :: cs) (.opening :: ls)
  | closing {cs ls} : Cuts cs ls → Cuts (')' :: cs) (.closing :: ls)
  | comma {cs ls} : Cuts cs ls → Cuts (',' :: cs) (.comma :: ls)
  | quoted {s cs ls} : cs.head? ≠ some '\'' → Cuts cs ls →
      Cuts ('\'' :: doubleQuotes s ++ '\'' :: cs) (.quoted s :: ls)
  | word {w cs ls} : w ≠ [] → (∀ c ∈ w, isWordChar c = true) → Text.Stops isWordChar cs →
      Cuts cs ls → Cuts (w ++ cs) (.word w :: ls)

/-- A bare word ends at the first character that cannot be in it. -/
theorem Cuts.bareWord (w : String) {c : Char} {cs : List Char} {ls : List Lexeme}
    (hNe : w.toList ≠ []) (hWord : w.toList.all isWordChar = true) (hStop : isWordChar c = false)
    (h : Cuts (c :: cs) ls) : Cuts (w.toList ++ c :: cs) (.word w.toList :: ls) := by
  refine .word hNe (List.all_eq_true.mp hWord) ?_ h
  rintro _ ⟨⟩
  exact hStop

/-- Only blanks give no lexeme. -/
theorem Cuts.exists_not_blank_iff {cs : List Char} {ls : List Lexeme} (h : Cuts cs ls) :
    (∃ c ∈ cs, Text.isBlank c = false) ↔ ls ≠ [] := by
  induction h with
  | nil => simp
  | blank hBlank _ ih =>
    rw [← ih]
    simp [hBlank]
  | opening | closing | comma | quoted =>
    exact iff_of_true ⟨_, List.mem_cons_self, by decide⟩ (List.cons_ne_nil _ _)
  | @word w cs ls hNe hWord =>
    obtain ⟨c, w, rfl⟩ := List.exists_cons_of_ne_nil hNe
    have hChar := isWordChar_iff.mp (hWord c List.mem_cons_self)
    exact iff_of_true ⟨c, List.mem_cons_self, hChar.1⟩ (List.cons_ne_nil _ _)

theorem doubleQuotes_cons (c : Char) (s : List Char) :
    doubleQuotes (c :: s) = (if c = '\'' then ['\'', '\''] else [c]) ++ doubleQuotes s :=
  List.flatMap_cons

theorem scanQuoted_doubleQuotes (s : List Char) {rest : List Char} (h : rest.head? ≠ some '\'') :
    scanQuoted (doubleQuotes s ++ '\'' :: rest) = .ok (s, rest) := by
  induction s with
  | nil =>
    cases rest with
    | nil => rfl
    | cons c rest =>
      have hNe : c ≠ '\'' := by simpa using h
      simp [doubleQuotes, scanQuoted, hNe]
  | cons c s ih =>
    rw [doubleQuotes_cons]
    by_cases hQuote : c = '\''
    · simp [hQuote, scanQuoted, ih]
    · simp [hQuote, scanQuoted, ih]

theorem of_scanQuoted {cs s rest : List Char} (h : scanQuoted cs = .ok (s, rest)) :
    cs = doubleQuotes s ++ '\'' :: rest ∧ rest.head? ≠ some '\'' := by
  fun_induction scanQuoted cs generalizing s rest with
  | case1 => cases h
  | case2 after t after' hScan ih =>
    cases h
    obtain ⟨rfl, hRest⟩ := ih hScan
    exact ⟨by simp [doubleQuotes_cons], hRest⟩
  | case3 | case6 => cases h
  | case4 after hDouble =>
    cases h
    refine ⟨rfl, fun hHead => ?_⟩
    obtain ⟨rest, rfl⟩ := List.head?_eq_some_iff.mp hHead
    exact hDouble rest rfl rfl
  | case5 c after hDouble hQuote t after' hScan ih =>
    cases h
    obtain ⟨rfl, hRest⟩ := ih hScan
    exact ⟨by simp [doubleQuotes_cons, hQuote], hRest⟩

theorem lex_of_cuts {cs : List Char} {ls : List Lexeme} (h : Cuts cs ls) : lex cs = .ok ls := by
  induction h with
  | nil => rw [lex]
  | blank hBlank _ ih => rw [lex, if_pos hBlank, ih]
  | opening _ ih | closing _ ih | comma _ ih =>
    rw [lex, ih]
    rfl
  | @quoted s cs ls hRest _ ih =>
    rw [List.cons_append, lex, if_neg (by decide), if_neg (by decide), if_neg (by decide),
      if_neg (by decide), if_pos rfl]
    split
    · next t after hScan =>
      cases (scanQuoted_doubleQuotes s hRest).symm.trans hScan
      rw [ih]
      rfl
    · next t hScan => cases (scanQuoted_doubleQuotes s hRest).symm.trans hScan
  | @word w cs ls hNe hWord hStop _ ih =>
    obtain ⟨c, w, rfl⟩ := List.exists_cons_of_ne_nil hNe
    rw [List.forall_mem_cons] at hWord
    obtain ⟨hChar, hWord⟩ := hWord
    obtain ⟨hBlank, hOpening, hClosing, hComma, hQuote⟩ := isWordChar_iff.mp hChar
    rw [List.cons_append, lex, if_neg (by simp [hBlank]), if_neg hOpening, if_neg hClosing,
      if_neg hComma, if_neg hQuote, Text.takeWhile_append_of_stops hWord hStop,
      Text.dropWhile_append_of_stops hWord hStop, ih]
    rfl

/-- A bare word takes all that can be in it. -/
theorem Cuts.longest {c : Char} {cs : List Char} {ls : List Lexeme} (hChar : isWordChar c = true)
    (h : Cuts (cs.dropWhile isWordChar) ls) :
    Cuts (c :: cs) (.word (c :: cs.takeWhile isWordChar) :: ls) := by
  have hWord : ∀ x ∈ c :: cs.takeWhile isWordChar, isWordChar x = true :=
    List.forall_mem_cons.mpr ⟨hChar, fun x => List.mem_takeWhile_imp⟩
  have hWhole := Cuts.word (List.cons_ne_nil _ _) hWord (Text.stops_dropWhile _ _) h
  rwa [List.cons_append, List.takeWhile_append_dropWhile] at hWhole

theorem cuts_of_lex {cs : List Char} {ls : List Lexeme} (h : lex cs = .ok ls) : Cuts cs ls := by
  fun_induction lex cs generalizing ls with
  | case1 =>
    cases h
    exact .nil
  | case2 c rest hBlank ih => exact .blank hBlank (ih h)
  | case3 rest _ ih =>
    obtain ⟨ms, hMs, rfl⟩ := Outcome.map_eq_ok_iff.mp h
    exact .opening (ih hMs)
  | case4 rest _ _ ih =>
    obtain ⟨ms, hMs, rfl⟩ := Outcome.map_eq_ok_iff.mp h
    exact .closing (ih hMs)
  | case5 rest _ _ _ ih =>
    obtain ⟨ms, hMs, rfl⟩ := Outcome.map_eq_ok_iff.mp h
    exact .comma (ih hMs)
  | case6 rest s after hScan _ _ _ _ ih =>
    obtain ⟨ms, hMs, rfl⟩ := Outcome.map_eq_ok_iff.mp h
    obtain ⟨rfl, hAfter⟩ := of_scanQuoted hScan
    exact .quoted hAfter (ih hMs)
  | case7 => cases h
  | case8 c rest hBlank hOpening hClosing hComma hQuote ih =>
    obtain ⟨ms, hMs, rfl⟩ := Outcome.map_eq_ok_iff.mp h
    have hChar : isWordChar c = true :=
      isWordChar_iff.mpr ⟨by simpa using hBlank, hOpening, hClosing, hComma, hQuote⟩
    exact .longest hChar (ih hMs)

theorem lex_eq_ok_iff {cs : List Char} {ls : List Lexeme} : lex cs = .ok ls ↔ Cuts cs ls :=
  ⟨cuts_of_lex, lex_of_cuts⟩

end TableGateway.Lexeme
