import Mathlib.Data.List.Infix
import TableGateway.Sql.Clause

/-!
# What patterns match

A pattern is read as an engine reads it: a percent sign is any run of characters, an underscore any
one character, and a character can be made to stand for itself, by a backslash before it or, on SQL
Server, by brackets around it. The pattern that a search binds matches the texts that have the
searched text at the front, or anywhere, and no other.
-/

namespace TableGateway

inductive CharClass
  | any
  | exactly (c : Char)
  | among (cs : List Char)
deriving DecidableEq, Repr

def CharClass.admits : CharClass → Char → Bool
  | .any, _ => true
  | .exactly a, c => c = a
  | .among cs, c => cs.contains c

inductive PatternItem
  | run
  | one (k : CharClass)
deriving DecidableEq, Repr

namespace PatternItem

/-- Whether the items match the whole text. A run is tried at every place where it could end. -/
def matchesText : List PatternItem → List Char → Bool
  | [], text => text.isEmpty
  | .run :: items, text => text.tails.any (matchesText items)
  | .one k :: items, c :: text => k.admits c && matchesText items text
  | .one _ :: _, [] => false

theorem matchesText_run_iff {items : List PatternItem} {text : List Char} :
    matchesText (.run :: items) text = true ↔ ∃ rest, rest <:+ text ∧ matchesText items rest := by
  simp [matchesText]

theorem matchesText_one_iff {k : CharClass} {items : List PatternItem} {text : List Char} :
    matchesText (.one k :: items) text = true ↔
      ∃ c rest, text = c :: rest ∧ k.admits c ∧ matchesText items rest := by
  cases text with
  | nil => simp [matchesText]
  | cons c rest => simp [matchesText]

/-- The item stands for one character, and for no other than this. -/
def Spells (item : PatternItem) (c : Char) : Prop :=
  ∃ k, item = .one k ∧ ∀ x, k.admits x = true ↔ x = c

theorem spells_exactly (c : Char) : Spells (.one (.exactly c)) c :=
  ⟨_, rfl, by simp [CharClass.admits]⟩

theorem spells_among (c : Char) : Spells (.one (.among [c])) c :=
  ⟨_, rfl, by simp [CharClass.admits]⟩

theorem matchesText_spelled_iff {letters : List PatternItem} {spelled : List Char}
    (h : List.Forall₂ Spells letters spelled) (items : List PatternItem) (text : List Char) :
    matchesText (letters ++ items) text = true ↔
      ∃ rest, text = spelled ++ rest ∧ matchesText items rest := by
  induction h generalizing text with
  | nil => simp
  | @cons letter c letters spelled hLetter _ ih =>
    obtain ⟨k, rfl, hAdmits⟩ := hLetter
    simp only [List.cons_append, matchesText_one_iff, hAdmits, ih]
    constructor
    · rintro ⟨_, _, rfl, rfl, rest, rfl, hRest⟩
      exact ⟨rest, rfl, hRest⟩
    · rintro ⟨rest, rfl, hRest⟩
      exact ⟨c, spelled ++ rest, rfl, rfl, rest, rfl, hRest⟩

theorem matchesText_prefix_iff {letters : List PatternItem} {spelled : List Char}
    (h : List.Forall₂ Spells letters spelled) (text : List Char) :
    matchesText (letters ++ [.run]) text = true ↔ spelled <+: text := by
  have hAll (rest : List Char) : matchesText [.run] rest = true :=
    matchesText_run_iff.mpr ⟨[], List.nil_suffix, rfl⟩
  simp only [matchesText_spelled_iff h, hAll, and_true]
  exact ⟨fun ⟨rest, hText⟩ => ⟨rest, hText.symm⟩, fun ⟨rest, hText⟩ => ⟨rest, hText.symm⟩⟩

theorem matchesText_infix_iff {letters : List PatternItem} {spelled : List Char}
    (h : List.Forall₂ Spells letters spelled) (text : List Char) :
    matchesText (.run :: (letters ++ [.run])) text = true ↔ spelled <:+: text := by
  simp only [matchesText_run_iff, matchesText_prefix_iff h]
  constructor
  · rintro ⟨rest, hRest, hSpelled⟩
    exact hSpelled.isInfix.trans hRest.isInfix
  · rintro ⟨front, back, rfl⟩
    exact ⟨spelled ++ back, ⟨front, by simp⟩, List.prefix_append ..⟩

/-- A backslash makes the next character an ordinary one, and there must be one. -/
def readEscaped? : List Char → Option (List PatternItem)
  | [] => some []
  | '%' :: cs => (readEscaped? cs).map (.run :: ·)
  | '_' :: cs => (readEscaped? cs).map (.one .any :: ·)
  | ['\\'] => none
  | '\\' :: c :: cs => (readEscaped? cs).map (.one (.exactly c) :: ·)
  | c :: cs => (readEscaped? cs).map (.one (.exactly c) :: ·)

/-- Brackets around characters stand for one of them, and must be closed. The characters of the
open group come first, from the last to the first. -/
def readGrouped? : Option (List Char) → List Char → Option (List PatternItem)
  | none, [] => some []
  | none, '%' :: cs => (readGrouped? none cs).map (.run :: ·)
  | none, '_' :: cs => (readGrouped? none cs).map (.one .any :: ·)
  | none, '[' :: cs => readGrouped? (some []) cs
  | none, c :: cs => (readGrouped? none cs).map (.one (.exactly c) :: ·)
  | some _, [] => none
  | some group, ']' :: cs => (readGrouped? none cs).map (.one (.among group.reverse) :: ·)
  | some group, c :: cs => readGrouped? (some (c :: group)) cs

end PatternItem

namespace Dialect

open PatternItem

def readPattern? (d : Dialect) (pattern : List Char) : Option (List PatternItem) :=
  if d = .sqlServer then readGrouped? none pattern else readEscaped? pattern

/-- The characters that a pattern does not take for themselves everywhere. -/
def metacharacters (d : Dialect) : List Char :=
  if d = .sqlServer then ['%', '_', '[', ']'] else ['%', '_', '\\']

end Dialect

/-- A folding of case character by character, which leaves the metacharacters of the engine alone:
it neither changes one nor makes one of another character. -/
structure CaseFolding (d : Dialect) where
  fold : Char → Char
  fold_eq_iff : ∀ m ∈ d.metacharacters, ∀ c, fold c = m ↔ c = m

namespace CaseFolding

variable {d : Dialect} (f : CaseFolding d)

def folded (s : String) : List Char := s.toList.map f.fold

theorem fold_eq {m : Char} (h : m ∈ d.metacharacters) : f.fold m = m :=
  (f.fold_eq_iff m h m).mpr rfl

theorem fold_not_mem {ms : List Char} {c : Char} (hMeta : ms ⊆ d.metacharacters) (h : c ∉ ms) :
    f.fold c ∉ ms := by
  intro hFold
  have hSame : c = f.fold c := (f.fold_eq_iff _ (hMeta hFold) c).mp rfl
  exact h (hSame ▸ hFold)

theorem metacharacters_subset : d.metacharacters ⊆ ['%', '_', '[', ']', '\\'] := by
  cases d <;> decide

theorem toLower_eq_iff {m : Char} (hMeta : m ∈ ['%', '_', '[', ']', '\\']) (c : Char) :
    c.toLower = m ↔ c = m := by
  by_cases hUpper : 65 ≤ c.toNat ∧ c.toNat ≤ 90
  · have hLetters : ∀ n < 26, ∀ m ∈ ['%', '_', '[', ']', '\\'],
        ((Char.ofNat (65 + n)).toLower = m ↔ Char.ofNat (65 + n) = m) := by
      simp only [List.forall_mem_cons, List.not_mem_nil, false_imp_iff, implies_true, and_true]
      decide
    have hLetter := hLetters (c.toNat - 65) (by omega) m hMeta
    rwa [Nat.add_sub_cancel' hUpper.1, Char.ofNat_toNat] at hLetter
  · have hSame : c.toLower = c := dif_neg hUpper
    rw [hSame]

/-- The folding of the ASCII letters only. -/
def ascii (d : Dialect) : CaseFolding d where
  fold := Char.toLower
  fold_eq_iff _ hMeta := toLower_eq_iff (metacharacters_subset hMeta)

end CaseFolding

namespace Dialect

open PatternItem

variable {d : Dialect} (f : CaseFolding d)

/-- Whether the engine finds the text like the pattern, with the case of both folded. -/
def likes (pattern text : String) : Bool :=
  (d.readPattern? (f.folded pattern)).any fun items => matchesText items (f.folded text)

theorem readEscaped?_of_ordinary {c : Char} (h : c ∉ ['%', '_', '\\']) (cs : List Char) :
    readEscaped? (c :: cs) = (readEscaped? cs).map (.one (.exactly c) :: ·) := by
  simp only [List.mem_cons, List.not_mem_nil, or_false, not_or] at h
  obtain ⟨hRun, hAny, hEscape⟩ := h
  rw [readEscaped?]
  · exact hRun
  · exact hAny
  · exact fun hc _ => hEscape hc
  · exact fun _ _ hc _ => hEscape hc

theorem readGrouped?_of_ordinary {c : Char} (h : c ∉ ['%', '_', '[']) (cs : List Char) :
    readGrouped? none (c :: cs) = (readGrouped? none cs).map (.one (.exactly c) :: ·) := by
  simp only [List.mem_cons, List.not_mem_nil, or_false, not_or] at h
  obtain ⟨hRun, hAny, hOpening⟩ := h
  rw [readGrouped?] <;> assumption

theorem readGrouped?_group {c : Char} (h : c ≠ ']') (cs : List Char) :
    readGrouped? none ('[' :: c :: ']' :: cs) =
      (readGrouped? none cs).map (.one (.among [c]) :: ·) := by
  rw [readGrouped?, readGrouped?, readGrouped?]
  · rfl
  · exact h

/-- A character is read as an item that stands for it alone when it is put into brackets, and also
when it needs none. A closing bracket that no bracket was opened before needs none. -/
theorem readGrouped?_escapePatternChar (f : CaseFolding .sqlServer) (c : Char) :
    ∃ item, Spells item (f.fold c) ∧ ∀ rest,
      readGrouped? none ((Dialect.sqlServer.escapePatternChar c).map f.fold ++ rest) =
        (readGrouped? none rest).map (item :: ·) := by
  have hEscape : Dialect.sqlServer.escapePatternChar c =
      if c ∈ ['%', '_', '['] then ['[', c, ']'] else [c] := by
    simp only [escapePatternChar, List.mem_cons, List.not_mem_nil, or_false]
    grind
  by_cases hMeta : c ∈ ['%', '_', '[']
  · refine ⟨.one (.among [f.fold c]), spells_among _, fun rest => ?_⟩
    have hc : f.fold c = c := f.fold_eq (List.mem_append_left [']'] hMeta)
    have hOpening : f.fold '[' = '[' := f.fold_eq (by decide)
    have hClosing : f.fold ']' = ']' := f.fold_eq (by decide)
    have hOther : c ≠ ']' := by
      rintro rfl
      exact absurd hMeta (by decide)
    simp only [hEscape, if_pos hMeta, List.map_cons, List.map_nil, hc, hOpening, hClosing]
    exact readGrouped?_group hOther rest
  · refine ⟨.one (.exactly (f.fold c)), spells_exactly _, fun rest => ?_⟩
    have hFold : f.fold c ∉ ['%', '_', '['] := f.fold_not_mem (by decide) hMeta
    rw [hEscape, if_neg hMeta]
    exact readGrouped?_of_ordinary hFold rest

/-- A character is read as an item that stands for it alone when a backslash is put before it, and
also when it needs none. -/
theorem readEscaped?_escapePatternChar (hEngine : d ≠ .sqlServer) (c : Char) :
    ∃ item, Spells item (f.fold c) ∧ ∀ rest,
      readEscaped? ((d.escapePatternChar c).map f.fold ++ rest) =
        (readEscaped? rest).map (item :: ·) := by
  have hMetacharacters : d.metacharacters = ['%', '_', '\\'] := if_neg hEngine
  have hEscape : d.escapePatternChar c =
      if c ∈ ['%', '_', '\\'] then ['\\', c] else [c] := by
    simp only [escapePatternChar, hEngine, List.mem_cons, List.not_mem_nil, or_false]
    grind
  refine ⟨.one (.exactly (f.fold c)), spells_exactly _, fun rest => ?_⟩
  by_cases hMeta : c ∈ ['%', '_', '\\']
  · have hBackslash : f.fold '\\' = '\\' := f.fold_eq (by simp [hMetacharacters])
    rw [hEscape, if_pos hMeta]
    simp [readEscaped?, hBackslash]
  · have hFold : f.fold c ∉ ['%', '_', '\\'] := f.fold_not_mem (by simp [hMetacharacters]) hMeta
    rw [hEscape, if_neg hMeta]
    exact readEscaped?_of_ordinary hFold rest

theorem readPattern?_escapePatternChar (c : Char) :
    ∃ item, Spells item (f.fold c) ∧ ∀ rest,
      d.readPattern? ((d.escapePatternChar c).map f.fold ++ rest) =
        (d.readPattern? rest).map (item :: ·) := by
  by_cases hServer : d = .sqlServer
  · subst hServer
    simpa [readPattern?] using readGrouped?_escapePatternChar f c
  · simpa [readPattern?, hServer] using readEscaped?_escapePatternChar f hServer c

/-- An escaped text is read as items that spell it, in front of whatever follows. -/
theorem readPattern?_escaped (s : List Char) :
    ∃ letters, List.Forall₂ Spells letters (s.map f.fold) ∧ ∀ rest,
      d.readPattern? ((s.flatMap d.escapePatternChar).map f.fold ++ rest) =
        (d.readPattern? rest).map (letters ++ ·) := by
  induction s with
  | nil => exact ⟨[], .nil, by simp⟩
  | cons c s ih =>
    obtain ⟨item, hItem, hRead⟩ := readPattern?_escapePatternChar f c
    obtain ⟨letters, hLetters, hReadRest⟩ := ih
    refine ⟨item :: letters, .cons hItem hLetters, fun rest => ?_⟩
    rw [List.flatMap_cons, List.map_append, List.append_assoc, hRead, hReadRest, Option.map_map]
    rfl

theorem readPattern?_percent (cs : List Char) :
    d.readPattern? (f.fold '%' :: cs) = (d.readPattern? cs).map (.run :: ·) := by
  have hPercent : '%' ∈ d.metacharacters := by cases d <;> decide
  rw [f.fold_eq hPercent, readPattern?]
  split <;> simp [readEscaped?, readGrouped?, readPattern?, *]

theorem readPattern?_nil : d.readPattern? [] = some [] := by
  cases d <;> rfl

theorem likes_prefix_iff (s text : String) :
    likes f s!"{d.escapePattern s}%" text = true ↔ f.folded s <+: f.folded text := by
  obtain ⟨letters, hLetters, hRead⟩ := readPattern?_escaped f s.toList
  have hPattern :
      d.readPattern? (f.folded s!"{d.escapePattern s}%") = some (letters ++ [.run]) := by
    have hParts : f.folded s!"{d.escapePattern s}%" =
        (s.toList.flatMap d.escapePatternChar).map f.fold ++ [f.fold '%'] := by
      simp [CaseFolding.folded, escapePattern, toString]
    rw [hParts, hRead, readPattern?_percent, readPattern?_nil]
    rfl
  rw [likes, hPattern]
  exact matchesText_prefix_iff hLetters _

theorem likes_infix_iff (s text : String) :
    likes f s!"%{d.escapePattern s}%" text = true ↔ f.folded s <:+: f.folded text := by
  obtain ⟨letters, hLetters, hRead⟩ := readPattern?_escaped f s.toList
  have hPattern :
      d.readPattern? (f.folded s!"%{d.escapePattern s}%") = some (.run :: (letters ++ [.run])) := by
    have hParts : f.folded s!"%{d.escapePattern s}%" =
        f.fold '%' :: ((s.toList.flatMap d.escapePatternChar).map f.fold ++ [f.fold '%']) := by
      simp [CaseFolding.folded, escapePattern, toString]
    rw [hParts, readPattern?_percent, hRead, readPattern?_percent, readPattern?_nil]
    rfl
  rw [likes, hPattern]
  exact matchesText_infix_iff hLetters _

/-- A search for a text binds the pattern of this text and nothing else. -/
theorem values_condition_of_isPattern {c : Condition} {v : BoundValue}
    (hOperator : c.operator.isPattern = true) (hOperand : c.operand = .single v) (ps : Parameters) :
    (Draft.bind ps (d.condition c)).values = ps.values ++ [d.pattern c.operator v] := by
  have hCondition : d.condition c = d.patternCondition c v := by
    cases hOp : c.operator <;> simp_all [condition, Comparison.isPattern]
  rw [hCondition, patternCondition]
  cases d with
  | postgres =>
    by_cases hText : c.type = .text <;>
      simp [matchForm, hText, Draft.columnOf, Draft.bind, Part.bind]
  | mysql | sqlite | sqlServer => simp [matchForm, Draft.columnOf, Draft.bind, Part.bind]

/-- Whatever the searched text consists of, the engine finds with the bound pattern the texts that
have it anywhere, or at the front, up to case. -/
theorem search_finds_text_exactly (c : Condition) (v : BoundValue)
    (hOperand : c.operand = .single v) :
    (c.operator = .contains →
      ∃ pattern, (∀ ps, (Draft.bind ps (d.condition c)).values = ps.values ++ [.text pattern]) ∧
        ∀ text, likes f pattern text = true ↔ f.folded (searchedText v) <:+: f.folded text) ∧
    (c.operator = .startsWith →
      ∃ pattern, (∀ ps, (Draft.bind ps (d.condition c)).values = ps.values ++ [.text pattern]) ∧
        ∀ text, likes f pattern text = true ↔ f.folded (searchedText v) <+: f.folded text) := by
  constructor
  · intro hContains
    refine ⟨s!"%{d.escapePattern (searchedText v)}%", fun ps => ?_, likes_infix_iff f _⟩
    have hValues := values_condition_of_isPattern (d := d) (by rw [hContains]; rfl) hOperand ps
    rw [hValues, pattern, hContains, if_pos rfl]
  · intro hStartsWith
    refine ⟨s!"{d.escapePattern (searchedText v)}%", fun ps => ?_, likes_prefix_iff f _⟩
    have hValues := values_condition_of_isPattern (d := d) (by rw [hStartsWith]; rfl) hOperand ps
    rw [hValues, pattern, hStartsWith, if_neg (by decide)]

def sampleSearch (s : String) : Condition := ⟨"o", "Note", .text, .contains, .single (.text s)⟩

theorem search_finds_brackets_exactly :
    (sampleSearch "[5%]").operand = .single (.text "[5%]") ∧
      (sampleSearch "[5%]").operator = .contains ∧
      ∃ pattern,
        (∀ ps, (Draft.bind ps (Dialect.sqlServer.condition (sampleSearch "[5%]"))).values =
          ps.values ++ [.text pattern]) ∧
        ∀ text, likes (CaseFolding.ascii .sqlServer) pattern text = true ↔
          (CaseFolding.ascii .sqlServer).folded "[5%]" <:+:
            (CaseFolding.ascii .sqlServer).folded text :=
  ⟨rfl, rfl,
    (search_finds_text_exactly (CaseFolding.ascii .sqlServer) (sampleSearch "[5%]") (.text "[5%]")
      rfl).1 rfl⟩

example : likes (CaseFolding.ascii .sqlServer) "%[[]5[%]]%" "Rate: [5%]" = true := by decide

example : likes (CaseFolding.ascii .mysql) "a\\_\\\\%" "A_\\b" = true := by decide

end Dialect

end TableGateway
