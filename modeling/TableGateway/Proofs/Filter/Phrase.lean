import Mathlib.Algebra.Group.Nat.Even
import TableGateway.Proofs.Filter.Parentheses

/-!
# Lexemes written with blanks between them

A blank ends every lexeme, so the lexemes of a text are found again where they are written one
behind the other with blanks between them. In quotes any text is one lexeme, and a column of text is
compared with exactly this text. What is not cut into lexemes is only short of a closing quote.
-/

namespace TableGateway

namespace Lexeme

variable {l : Lexeme} {cs s : List Char} {ls : List Lexeme}

/-- Whether a text can have this lexeme: a bare word is not empty and nothing inside ends it. -/
def IsProper : Lexeme → Prop
  | .word w => w ≠ [] ∧ ∀ c ∈ w, isWordChar c = true
  | _ => True

theorem Cuts.isProper (h : Cuts cs ls) : ∀ l ∈ ls, l.IsProper := by
  induction h with
  | nil => exact nofun
  | blank _ _ ih => exact ih
  | opening _ ih | closing _ ih | comma _ ih => exact List.forall_mem_cons.mpr ⟨trivial, ih⟩
  | quoted _ _ ih => exact List.forall_mem_cons.mpr ⟨trivial, ih⟩
  | word hNe hWord _ _ ih => exact List.forall_mem_cons.mpr ⟨⟨hNe, hWord⟩, ih⟩

theorem isBlank_quote : Text.isBlank '\'' = false := by decide

/-- A lexeme ends where the text is at its end or goes on with a blank. -/
theorem Cuts.prepend (hProper : l.IsProper) (hEnd : ∀ c ∈ cs.head?, Text.isBlank c = true)
    (h : Cuts cs ls) : Cuts (l.chars ++ cs) (l :: ls) := by
  cases l with
  | opening => exact .opening h
  | closing => exact .closing h
  | comma => exact .comma h
  | quoted s =>
    have hQuote : cs.head? ≠ some '\'' := fun hHead =>
      Bool.false_ne_true (isBlank_quote.symm.trans (hEnd _ hHead))
    rw [chars, List.append_assoc]
    exact .quoted hQuote h
  | word w =>
    have hStops : Text.Stops isWordChar cs := fun c hc => by simp [isWordChar, hEnd c hc]
    exact .word hProper.1 hProper.2 hStops h

theorem cuts_phrase (h : ∀ l ∈ ls, l.IsProper) : Cuts (phrase ls).toList ls := by
  have hText : String.toList ∘ text = chars := funext fun l => String.toList_ofList
  rw [phrase, String.toList_intercalate, List.map_map, hText]
  induction ls with
  | nil => exact .nil
  | cons l ls ih =>
    rw [List.forall_mem_cons] at h
    have hRest := ih h.2
    cases ls with
    | nil =>
      rw [List.map_singleton, List.intercalate_singleton, ← List.append_nil l.chars]
      exact .prepend h.1 nofun .nil
    | cons next ls =>
      rw [List.map_cons, List.map_cons, List.intercalate_cons_cons, List.append_assoc]
      refine .prepend h.1 ?_ (.blank rfl hRest)
      rintro _ ⟨⟩
      rfl

theorem cuts_quoted (s : List Char) : Cuts (chars (.quoted s)) [.quoted s] :=
  .quoted nofun .nil

theorem even_count_doubleQuotes (s : List Char) : Even ((doubleQuotes s).count '\'') := by
  induction s with
  | nil => exact Even.zero
  | cons c s ih =>
    rw [doubleQuotes_cons, List.count_append]
    refine Even.add ?_ ih
    split
    · decide
    · next hOther => simp [hOther]

/-- In a text of lexemes every quote has its partner. -/
theorem Cuts.even_count (h : Cuts cs ls) : Even (cs.count '\'') := by
  induction h with
  | nil => exact Even.zero
  | @blank c _ _ hBlank _ ih =>
    have hOther : c ≠ '\'' := by
      rintro rfl
      exact Bool.false_ne_true (isBlank_quote.symm.trans hBlank)
    rwa [List.count_cons_of_ne hOther]
  | opening _ ih | closing _ ih | comma _ ih => rwa [List.count_cons_of_ne (by decide)]
  | @quoted s _ _ _ _ ih =>
    have hContent := even_count_doubleQuotes s
    rw [List.cons_append, List.count_cons_self, List.count_append, List.count_cons_self]
    rw [Nat.even_iff] at ih hContent ⊢
    omega
  | @word w _ _ _ hWord _ _ ih =>
    have hNone : '\'' ∉ w := fun hMem => Bool.false_ne_true (hWord _ hMem)
    rwa [List.count_append, List.count_eq_zero_of_not_mem hNone, Nat.zero_add]

theorem eq_of_scanQuoted_eq_error (h : scanQuoted cs = .error s) : cs = doubleQuotes s := by
  fun_induction scanQuoted cs generalizing s with
  | case1 =>
    cases h
    rfl
  | case2 | case4 | case5 => cases h
  | case3 after t hScan ih =>
    cases h
    rw [ih hScan, doubleQuotes_cons, if_pos rfl]
    rfl
  | case6 c after hDouble hQuote t hScan ih =>
    cases h
    rw [ih hScan, doubleQuotes_cons, if_neg hQuote]
    rfl

/-- The text is short of the quote that closes its last quoted string, which has this content. -/
def LeavesOpen (cs s : List Char) : Prop := ∃ ls, Cuts (cs ++ ['\'']) (ls ++ [.quoted s])

/-- A quote behind a text does not go on with a word. -/
theorem span_append_quote (cs : List Char) :
    (cs ++ ['\'']).takeWhile isWordChar = cs.takeWhile isWordChar ∧
      (cs ++ ['\'']).dropWhile isWordChar = cs.dropWhile isWordChar ++ ['\''] := by
  induction cs with
  | nil => exact ⟨rfl, rfl⟩
  | cons c cs ih =>
    rw [List.cons_append, List.takeWhile_cons, List.takeWhile_cons, List.dropWhile_cons,
      List.dropWhile_cons]
    split
    · exact ⟨congrArg (c :: ·) ih.1, ih.2⟩
    · exact ⟨rfl, rfl⟩

theorem leavesOpen_of_lex (h : lex cs = .error s) : LeavesOpen cs s := by
  fun_induction lex cs generalizing s with
  | case1 => cases h
  | case2 c rest hBlank ih =>
    obtain ⟨ls, hCuts⟩ := ih h
    exact ⟨ls, .blank hBlank hCuts⟩
  | case3 rest _ ih =>
    obtain ⟨ls, hCuts⟩ := ih (Outcome.map_eq_error_iff.mp h)
    exact ⟨.opening :: ls, .opening hCuts⟩
  | case4 rest _ _ ih =>
    obtain ⟨ls, hCuts⟩ := ih (Outcome.map_eq_error_iff.mp h)
    exact ⟨.closing :: ls, .closing hCuts⟩
  | case5 rest _ _ _ ih =>
    obtain ⟨ls, hCuts⟩ := ih (Outcome.map_eq_error_iff.mp h)
    exact ⟨.comma :: ls, .comma hCuts⟩
  | case6 rest t after hScan _ _ _ _ ih =>
    have hRest := Outcome.map_eq_error_iff.mp h
    obtain ⟨ls, hCuts⟩ := ih hRest
    obtain ⟨rfl, hAfter⟩ := of_scanQuoted hScan
    -- Behind the closing quote the new one would double it, but an empty rest is no failure.
    have hHead : (after ++ ['\'']).head? ≠ some '\'' := by
      cases after with
      | nil =>
        rw [lex] at hRest
        cases hRest
      | cons c after => exact hAfter
    refine ⟨.quoted t :: ls, ?_⟩
    rw [List.cons_append, List.append_assoc]
    exact .quoted hHead hCuts
  | case7 rest t hScan =>
    cases h
    rw [eq_of_scanQuoted_eq_error hScan]
    exact ⟨[], cuts_quoted t⟩
  | case8 c rest hBlank hOpening hClosing hComma hQuote ih =>
    obtain ⟨ls, hCuts⟩ := ih (Outcome.map_eq_error_iff.mp h)
    have hChar : isWordChar c = true :=
      isWordChar_iff.mpr ⟨by simpa using hBlank, hOpening, hClosing, hComma, hQuote⟩
    obtain ⟨hTake, hDrop⟩ := span_append_quote rest
    rw [← hDrop] at hCuts
    have hWhole := Cuts.longest hChar hCuts
    rw [hTake] at hWhole
    exact ⟨.word (c :: rest.takeWhile isWordChar) :: ls, hWhole⟩

/-- A text that is cut into lexemes has its quotes in pairs, and so has one that is only short of a
closing quote, together with this quote. So a text is never both. -/
theorem lex_eq_error_iff : lex cs = .error s ↔ LeavesOpen cs s := by
  refine ⟨leavesOpen_of_lex, ?_⟩
  rintro ⟨ls, hCuts⟩
  cases hLex : lex cs with
  | ok ms =>
    have hEven := hCuts.even_count
    rw [List.count_append, Nat.even_add, iff_true_left (cuts_of_lex hLex).even_count] at hEven
    exact absurd hEven (by decide)
  | error t =>
    obtain ⟨ms, hOther⟩ := leavesOpen_of_lex hLex
    have hSame := Except.ok.inj ((lex_of_cuts hCuts).symm.trans (lex_of_cuts hOther))
    cases List.append_inj_right' hSame rfl
    rfl

end Lexeme

namespace Filter

variable {e : Entity} {c : Column} {op : Comparison} {w s : List Char} {v : BoundValue}

/-- Whatever a comparison takes can be written in quotes. -/
theorem compile_quoted (hName : (Lexeme.word w).IsProper)
    (hBare : (Lexeme.word w).isConnective = false) (hColumn : e.column? (String.ofList w) = some c)
    (hOp : op ≠ .within) (hLiteral : Literal c op s v) :
    compile e (Lexeme.phrase [.word w, .word op.word.toList, .quoted s]) =
      .ok (.condition ⟨e.aliasName, c.name, c.type, op, .single v⟩) := by
  have hOperator : (Lexeme.word op.word.toList).IsProper := by
    cases op <;> exact ⟨by decide, List.all_eq_true.mp (by decide)⟩
  have hProper : ∀ l ∈ [.word w, .word op.word.toList, .quoted s], Lexeme.IsProper l := by
    rw [List.forall_mem_cons, List.forall_mem_cons, List.forall_mem_singleton]
    exact ⟨hName, hOperator, trivial⟩
  have hCuts := Lexeme.cuts_phrase hProper
  have hSpells : (Lexeme.word op.word.toList).spells op.word = true := by
    rw [Lexeme.spells, String.ofList_toList, Text.sameName_self]
  have hDerives : (grammar e).Derives .expression _ (formula (.condition _)) :=
    .alternative (.single (.atom (.mk hBare hColumn hSpells (.quoted hOp hLiteral))))
  have hNests := Lexeme.nestsWithin_of_length_le
    (show [.word w, .word op.word.toList, .quoted s].length ≤ 64 by simp)
  have hFew : [.word w, .word op.word.toList, .quoted s].countP Lexeme.isConnective ≤ 255 :=
    List.countP_le_length.trans (by simp)
  have hBalanced := hDerives.balanced (grammar_lawful e)
  have hText := hCuts.exists_not_blank_iff.mpr (List.cons_ne_nil _ _)
  exact compile_eq_ok_iff_derives.mpr
    ⟨by simpa [Text.isBlankText] using hText, _, Lexeme.lex_of_cuts hCuts,
      (checkShape_eq_ok_iff_of_balanced hBalanced).mpr ⟨hNests, hFew⟩, hDerives⟩

theorem literal_of_text (hType : c.type = .text) (op : Comparison) (s : List Char) :
    Literal c op s (.text (String.ofList s)) := by
  by_cases hPattern : op = .contains ∨ op = .startsWith
  · exact .pattern hPattern
  · rw [not_or] at hPattern
    refine .typed hPattern.1 hPattern.2 ?_
    rw [BoundValue.ofText, hType]
    rfl

end Filter

namespace Lexeme

/-- The lexemes of a text are found again in their phrase. A quoted string is one lexeme, and a
column of text is compared with what is in it. A text is not cut into lexemes exactly when its last
quoted string is not closed. -/
theorem phrases_are_read_back :
    (∀ (raw : String) (ls : List Lexeme), lex raw.toList = .ok ls →
      lex (phrase ls).toList = .ok ls) ∧
    (∀ s : String, lex (text (.quoted s.toList)).toList = .ok [.quoted s.toList]) ∧
    (∀ (e : Entity) (name : List Char) (c : Column) (op : Comparison) (s : String),
      (word name).IsProper → (word name).isConnective = false →
      e.column? (String.ofList name) = some c → c.type = .text → op ≠ .within →
      Filter.compile e (phrase [.word name, .word op.word.toList, .quoted s.toList]) =
        .ok (.condition ⟨e.aliasName, c.name, c.type, op, .single (.text s)⟩)) ∧
    ∀ (raw : String) (s : List Char), lex raw.toList = .error s ↔ LeavesOpen raw.toList s := by
  refine ⟨fun raw ls hLex => ?_, fun s => ?_, fun e name c op s hName hBare hColumn hType hOp => ?_,
    fun raw s => lex_eq_error_iff⟩
  · exact lex_of_cuts (cuts_phrase (cuts_of_lex hLex).isProper)
  · rw [text, String.toList_ofList]
    exact lex_of_cuts (cuts_quoted s.toList)
  · have hLiteral := Filter.literal_of_text hType op s.toList
    rw [String.ofList_toList] at hLiteral
    exact Filter.compile_quoted hName hBare hColumn hOp hLiteral

/-- Words, quotes and parentheses that touch each other, and strings of one quote and of none. -/
def touchingLexemes : List Lexeme :=
  [.word "name=".toList, .quoted "it's".toList, .opening, .quoted "'".toList, .comma, .quoted [],
    .closing]

theorem cuts_touchingLexemes : Cuts "name='it''s'('''','')".toList touchingLexemes := by
  refine .bareWord "name=" (by decide) (by decide) rfl ?_
  refine .quoted (s := "it's".toList) (by decide) (.opening ?_)
  refine .quoted (s := "'".toList) (by decide) (.comma ?_)
  exact .quoted (s := []) (by decide) (.closing .nil)

theorem touchingLexemes_are_read_back :
    lex "name='it''s'('''','')".toList = .ok touchingLexemes ∧
      lex "name= 'it''s' ( '''' , '' )".toList = .ok touchingLexemes ∧
      Filter.compile Filter.sampleEntity "nAME ne 'x'') or null'" =
        .ok (.condition ⟨"t_items", "Name", .text, .ne, .single (.text "x') or null")⟩) ∧
      lex "name 'x''".toList = .error "x'".toList := by
  obtain ⟨hPhrase, -, hLiteral, hError⟩ := phrases_are_read_back
  have hLex := lex_of_cuts cuts_touchingLexemes
  have hName : (word "nAME".toList).IsProper := ⟨by decide, List.all_eq_true.mp (by decide)⟩
  have hOpen : LeavesOpen "name 'x''".toList "x'".toList := by
    refine ⟨[.word "name".toList], .bareWord "name" (by decide) (by decide) rfl (.blank rfl ?_)⟩
    exact cuts_quoted "x'".toList
  refine ⟨hLex, hPhrase _ _ hLex, ?_, (hError _ _).mpr hOpen⟩
  exact hLiteral Filter.sampleEntity "nAME".toList _ .ne "x') or null" hName rfl rfl rfl nofun

end Lexeme

end TableGateway
