import TableGateway.Text.Basic

/-!
# Lexemes of a filter

A filter is cut into parentheses, commas, quoted strings and bare words; blanks separate and are
dropped. Inside quotes a quote is written twice. Cutting fails only where a quoted string is not
closed.
-/

namespace TableGateway

inductive Lexeme
  | opening
  | closing
  | comma
  | quoted (s : List Char)
  | word (s : List Char)
deriving DecidableEq, Repr

namespace Lexeme

/-- Characters that end a bare word and are no blanks. -/
def isDelimiter (c : Char) : Bool := c = '(' || c = ')' || c = ',' || c = '\''

def isWordChar (c : Char) : Bool := !Text.isBlank c && !isDelimiter c

/-- The content of a quoted string with every quote written twice. -/
def doubleQuotes (s : List Char) : List Char :=
  s.flatMap fun c => if c = '\'' then ['\'', '\''] else [c]

def chars : Lexeme → List Char
  | .opening => ['(']
  | .closing => [')']
  | .comma => [',']
  | .quoted s => '\'' :: doubleQuotes s ++ ['\'']
  | .word s => s

def text (l : Lexeme) : String := String.ofList l.chars

/-- Reads the content of a quoted string up to its closing quote. When there is none, the error is
the content so far. -/
def scanQuoted : List Char → Except (List Char) (List Char × List Char)
  | [] => .error []
  | '\'' :: '\'' :: rest =>
    match scanQuoted rest with
    | .ok (s, after) => .ok ('\'' :: s, after)
    | .error s => .error ('\'' :: s)
  | c :: rest =>
    if c = '\'' then .ok ([], rest)
    else
      match scanQuoted rest with
      | .ok (s, after) => .ok (c :: s, after)
      | .error s => .error (c :: s)

theorem length_scanQuoted {cs s rest : List Char} (h : scanQuoted cs = .ok (s, rest)) :
    rest.length < cs.length := by
  fun_induction scanQuoted cs generalizing s rest <;> grind

/-- The lexemes of a text, or the content of the quoted string that is not closed. -/
def lex (cs : List Char) : Except (List Char) (List Lexeme) :=
  match cs with
  | [] => .ok []
  | c :: rest =>
    if Text.isBlank c then lex rest
    else if c = '(' then (lex rest).map (.opening :: ·)
    else if c = ')' then (lex rest).map (.closing :: ·)
    else if c = ',' then (lex rest).map (.comma :: ·)
    else if c = '\'' then
      match _h : scanQuoted rest with
      | .ok (s, after) => (lex after).map (.quoted s :: ·)
      | .error s => .error s
    else
      (lex (rest.dropWhile isWordChar)).map (.word (c :: rest.takeWhile isWordChar) :: ·)
termination_by cs.length
decreasing_by
  all_goals simp_wf
  · have := length_scanQuoted ‹_›
    omega
  · have := (List.dropWhile_sublist isWordChar (l := rest)).length_le
    omega

def phrase (ls : List Lexeme) : String := " ".intercalate (ls.map text)

end Lexeme

end TableGateway
