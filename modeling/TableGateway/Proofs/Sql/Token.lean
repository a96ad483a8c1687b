import Mathlib.Data.List.TakeWhile
import TableGateway.Proofs.Text.Run
import TableGateway.Sql.Draft

/-!
# Reading statements

The tokens that an engine sees in the text of a statement: quoted names, string literals,
placeholders, words and single marks. The reader knows the engine but not how a statement is
written.
-/

namespace TableGateway

inductive Token
  | name (s : List Char)
  | literal (s : List Char)
  /-- What stands behind the sigil of a placeholder. -/
  | placeholder (reference : List Char)
  | word (s : List Char)
  | mark (c : Char)
deriving DecidableEq

def Token.reference? : Token → Option (List Char)
  | .placeholder reference => some reference
  | _ => none

namespace Dialect

/-- The character that starts a placeholder. -/
def sigil : Dialect → Char
  | .postgres => '$'
  | .mysql => '?'
  | .sqlite => ':'
  | .sqlServer => '@'

/-- Whether the character belongs to a placeholder whose sigil it follows. -/
def isReferenceChar : Dialect → Char → Bool
  | .postgres, c => c.isDigit
  | .mysql, _ => false
  | .sqlite, c | .sqlServer, c => Parameters.isNameChar c

/-- The character that takes away the meaning of the next one in a string literal. -/
def escape? : Dialect → Option Char
  | .mysql => some '\\'
  | _ => none

/-- The content up to the closing mark, and what follows it. Inside, the mark is doubled. -/
def delimited (close : Char) (escape : Option Char) : List Char → List Char × List Char
  | [] => ([], [])
  | [c] => if c = close then ([], []) else ([c], [])
  | c :: c' :: rest =>
    if c = close ∧ c' ≠ close then ([], c' :: rest)
    else if c = close ∨ some c = escape then
      let (s, after) := delimited close escape rest
      (c' :: s, after)
    else
      let (s, after) := delimited close escape (c' :: rest)
      (c :: s, after)

theorem length_delimited (close : Char) (escape : Option Char) (cs : List Char) :
    (delimited close escape cs).2.length ≤ cs.length := by
  fun_induction delimited close escape cs <;> simp_all <;> omega

/-- The tokens of a text. -/
def tokens (d : Dialect) (cs : List Char) : List Token :=
  match cs with
  | [] => []
  | c :: rest =>
    if Parameters.isNameChar c then
      .word (c :: rest.takeWhile Parameters.isNameChar) ::
        tokens d (rest.dropWhile Parameters.isNameChar)
    else if c = d.openQuote then
      .name (delimited d.closeQuote none rest).1 :: tokens d (delimited d.closeQuote none rest).2
    else if c = '\'' then
      .literal (delimited '\'' d.escape? rest).1 :: tokens d (delimited '\'' d.escape? rest).2
    else if c = d.sigil then
      .placeholder (rest.takeWhile d.isReferenceChar) :: tokens d (rest.dropWhile d.isReferenceChar)
    else if Text.isBlank c then tokens d rest
    else .mark c :: tokens d rest
termination_by cs.length
decreasing_by
  all_goals simp_wf
  · have := (List.dropWhile_sublist Parameters.isNameChar (l := rest)).length_le
    omega
  · have := length_delimited d.closeQuote none rest
    omega
  · have := length_delimited '\'' d.escape? rest
    omega
  · have := (List.dropWhile_sublist d.isReferenceChar (l := rest)).length_le
    omega

variable {d : Dialect} {rest : List Char}

@[simp] theorem tokens_nil : d.tokens [] = [] := by rw [tokens]

theorem tokens_word {w : List Char} (hNe : w ≠ []) (hWord : ∀ c ∈ w, Parameters.isNameChar c = true)
    (hStops : Text.Stops Parameters.isNameChar rest) :
    d.tokens (w ++ rest) = .word w :: d.tokens rest := by
  obtain ⟨c, w, rfl⟩ := List.exists_cons_of_ne_nil hNe
  rw [List.forall_mem_cons] at hWord
  rw [List.cons_append, tokens, if_pos hWord.1, Text.takeWhile_append_of_stops hWord.2 hStops,
    Text.dropWhile_append_of_stops hWord.2 hStops]

theorem tokens_placeholder {reference : List Char}
    (hReference : ∀ c ∈ reference, d.isReferenceChar c = true)
    (hStops : Text.Stops d.isReferenceChar rest) :
    d.tokens (d.sigil :: reference ++ rest) = .placeholder reference :: d.tokens rest := by
  have hName : Parameters.isNameChar d.sigil = false := by cases d <;> decide
  have hOpen : d.sigil ≠ d.openQuote := by cases d <;> decide
  have hQuote : d.sigil ≠ '\'' := by cases d <;> decide
  rw [List.cons_append, tokens, if_neg (by simp [hName]), if_neg hOpen, if_neg hQuote, if_pos rfl,
    Text.takeWhile_append_of_stops hReference hStops,
    Text.dropWhile_append_of_stops hReference hStops]

/-- A mark stands for itself. -/
def isMark (d : Dialect) (c : Char) : Bool :=
  !Parameters.isNameChar c && c ≠ d.openQuote && c ≠ '\'' && c ≠ d.sigil && !Text.isBlank c

theorem tokens_mark {c : Char} (h : d.isMark c = true) :
    d.tokens (c :: rest) = .mark c :: d.tokens rest := by
  simp only [isMark, Bool.and_eq_true, Bool.not_eq_true', decide_eq_true_eq] at h
  obtain ⟨⟨⟨⟨hName, hOpen⟩, hQuote⟩, hSigil⟩, hBlank⟩ := h
  rw [tokens, if_neg (by simp [hName]), if_neg hOpen, if_neg hQuote, if_neg hSigil,
    if_neg (by simp [hBlank])]

theorem tokens_space : d.tokens (' ' :: rest) = d.tokens rest := by
  rw [tokens, if_neg (by decide), if_neg (by cases d <;> decide), if_neg (by decide),
    if_neg (by cases d <;> decide), if_pos (by decide)]

theorem delimited_double {close : Char} (s : List Char) (h : rest.head? ≠ some close) :
    delimited close none (s.flatMap (fun c => if c = close then [c, c] else [c]) ++ close :: rest) =
      (s, rest) := by
  induction s with
  | nil =>
    cases rest with
    | nil => simp [delimited]
    | cons c rest =>
      have hNe : c ≠ close := by simpa using h
      simp [delimited, hNe]
  | cons c s ih =>
    rw [List.flatMap_cons]
    by_cases hClose : c = close
    · simp [hClose, delimited, ih]
    · -- One more character has to be seen before the first one is taken.
      obtain ⟨c', more, hMore⟩ := List.exists_cons_of_ne_nil
        (List.append_ne_nil_of_right_ne_nil
          (s.flatMap fun c => if c = close then [c, c] else [c]) (List.cons_ne_nil close rest))
      rw [if_neg hClose, List.singleton_append, List.cons_append, hMore]
      rw [hMore] at ih
      simp [delimited, hClose, ih]

theorem tokens_quote {s : String} (h : rest.head? ≠ some d.closeQuote) :
    d.tokens (d.quote s ++ rest) = .name s.toList :: d.tokens rest := by
  have hName : Parameters.isNameChar d.openQuote = false := by cases d <;> decide
  rw [quote, quoteChars, List.cons_append, List.cons_append, List.append_assoc,
    List.singleton_append, tokens, if_neg (by simp [hName]), if_pos rfl, delimited_double _ h]

theorem tokens_literal {s : List Char} (hEscape : d.escape? = none) (h : rest.head? ≠ some '\'') :
    d.tokens ('\'' :: s.flatMap (fun c => if c = '\'' then [c, c] else [c]) ++ '\'' :: rest) =
      .literal s :: d.tokens rest := by
  rw [List.cons_append, tokens, if_neg (by decide), if_neg (by cases d <;> decide), if_pos rfl,
    hEscape, delimited_double _ h]

end Dialect

end TableGateway
