import Mathlib.Data.List.Chain
import TableGateway.Proofs.Sql.Parameters
import TableGateway.Proofs.Sql.Token

/-!
# Legible drafts

The text of a draft is read as the tokens of its parts, as long as no part runs into the next one.
Drafts are made so: of two neighbours one is a separator.
-/

namespace TableGateway

/-- How a placeholder refers to the parameter at `index`, counted from one, that has this name. -/
def Dialect.reference (d : Dialect) (index : Nat) (name : String) : List Char :=
  match d with
  | .postgres => Text.decimal index
  | .mysql => []
  | .sqlite | .sqlServer => name.toList

theorem Keyword.text_ne_nil (k : Keyword) : k.text.toList ≠ [] := by
  cases k <;> decide

theorem Keyword.isNameChar_text (k : Keyword) :
    ∀ c ∈ k.text.toList, Parameters.isNameChar c = true := by
  rw [← List.all_eq_true]
  cases k <;> decide

namespace Part

def castWords : DataType → List String
  | .float => ["double", "precision"]
  | type => (Dialect.castName? type).toList

def castTokens (d : Dialect) (type : Option DataType) : List Token :=
  match d, (type.map castWords).getD [] with
  | .postgres, w :: ws => .mark ':' :: .mark ':' :: (w :: ws).map fun w => .word w.toList
  | _, _ => []

/-- The tokens of a part that comes after parts with the parameters `ps`. -/
def tokens (d : Dialect) (ps : Parameters) : Part → List Token
  | .keyword k => [.word k.text.toList]
  | .mark .space => []
  | .mark .backslash => [.literal ['\\']]
  | .mark m => m.text.toList.map .mark
  | .relation op => (relationText op).toList.map .mark
  | .name s => [.name s.toList]
  | .number n => if n < 0 then [.mark '-', .word (Text.decimal n.natAbs)]
      else [.word (Text.decimal n.natAbs)]
  | .value hint _ type =>
    .placeholder (d.reference (ps.size + 1) (ps.freshName hint)) :: castTokens d type

/-- A part that no token goes on through. -/
def isSeparator : Part → Bool
  | .mark m => m ≠ .backslash
  | .relation _ => true
  | _ => false

/-- Whether the engine reads the part as it is meant. A cast elsewhere would be a placeholder, and a
backslash might take away the meaning of the quote behind it. -/
def isReadable (d : Dialect) : Part → Bool
  | .mark .cast => d = .postgres
  | .mark .backslash => d = .sqlite
  | _ => true

end Part

namespace Draft

def tokens (d : Dialect) (ps : Parameters) : Draft → List Token
  | [] => []
  | part :: rest => part.tokens d ps ++ tokens d (part.bind ps) rest

theorem tokens_append (d : Dialect) (ps : Parameters) (a b : Draft) :
    tokens d ps (a ++ b) = tokens d ps a ++ tokens d (bind ps a) b := by
  induction a generalizing ps with
  | nil => rfl
  | cons part a ih => simp [tokens, bind, ih]

theorem tokens_enclosed (d : Dialect) (ps : Parameters) (a : Draft) :
    (enclosed a).tokens d ps = .mark '(' :: a.tokens d ps ++ [.mark ')'] := by
  rw [enclosed, List.cons_append, tokens, tokens_append]
  rfl

/-- Parts one of which separates them. -/
def Apart (p q : Part) : Prop := p.isSeparator = true ∨ q.isSeparator = true

structure Legible (d : Dialect) (draft : Draft) : Prop where
  isReadable : ∀ p ∈ draft, p.isReadable d = true
  apart : draft.IsChain Apart

end Draft

namespace Dialect

variable {d : Dialect} {rest : List Char}

/-- A character with which a token may go on that another one has begun. -/
def isContinuing (d : Dialect) (c : Char) : Bool :=
  Parameters.isNameChar c || c = d.closeQuote || c = '\''

theorem stops_name (h : Text.Stops d.isContinuing rest) :
    Text.Stops Parameters.isNameChar rest := by
  intro c hc
  have := h c hc
  simp_all [isContinuing]

theorem isNameChar_of_isReferenceChar {c : Char} (h : d.isReferenceChar c = true) :
    Parameters.isNameChar c = true := by
  cases d with
  | postgres => exact Parameters.isNameChar_of_isDigit h
  | mysql => cases h
  | sqlite | sqlServer => exact h

theorem stops_reference (h : Text.Stops d.isContinuing rest) :
    Text.Stops d.isReferenceChar rest := by
  intro c hc
  have hName := stops_name h c hc
  rw [Bool.eq_false_iff] at hName ⊢
  exact fun hReference => hName (isNameChar_of_isReferenceChar hReference)

theorem head?_ne_of_stops (h : Text.Stops d.isContinuing rest) :
    rest.head? ≠ some d.closeQuote ∧ rest.head? ≠ some '\'' := by
  constructor
  · intro hc
    simpa [isContinuing] using h _ hc
  · intro hc
    simpa [isContinuing] using h _ hc

theorem tokens_marks (cs : List Char) (h : cs.all d.isMark = true) :
    d.tokens (cs ++ rest) = cs.map .mark ++ d.tokens rest := by
  induction cs with
  | nil => rfl
  | cons c cs ih =>
    rw [List.all_cons, Bool.and_eq_true] at h
    rw [List.cons_append, tokens_mark h.1, ih h.2]
    rfl

theorem tokens_decimal (n : Nat) (h : Text.Stops Parameters.isNameChar rest) :
    d.tokens (Text.decimal n ++ rest) = .word (Text.decimal n) :: d.tokens rest :=
  tokens_word (Text.decimal_ne_nil n)
    (fun _ hc => Parameters.isNameChar_of_isDigit (Text.isDigit_of_mem_decimal hc)) h

theorem tokens_cast (type : Option DataType) (h : Text.Stops Parameters.isNameChar rest) :
    postgres.tokens (castText type ++ rest) =
      Part.castTokens .postgres type ++ postgres.tokens rest := by
  have hMarks (rest : List Char) : postgres.tokens (':' :: ':' :: rest) =
      .mark ':' :: .mark ':' :: postgres.tokens rest := tokens_marks [':', ':'] (by decide)
  cases type with
  | none => rfl
  | some type =>
    cases type with
    | float =>
      -- The only cast of two words.
      have hFirst : Text.Stops Parameters.isNameChar (' ' :: ("precision".toList ++ rest)) := by
        rintro c ⟨⟩
        decide
      change postgres.tokens
        (':' :: ':' :: ("double".toList ++ ' ' :: ("precision".toList ++ rest))) = _
      rw [hMarks, tokens_word (by decide) (List.all_eq_true.mp (by decide)) hFirst, tokens_space,
        tokens_word (by decide) (List.all_eq_true.mp (by decide)) h]
      rfl
    | other => rfl
    | _ =>
      rw [castText, Option.bind_some, castName?, List.append_assoc]
      exact (hMarks _).trans (congrArg (.mark ':' :: .mark ':' :: ·)
        (tokens_word (by decide) (List.all_eq_true.mp (by decide)) h))

theorem isReferenceChar_of_mem_reference {ps : Parameters} {hint : String} {index : Nat} {c : Char}
    (h : c ∈ d.reference index (ps.freshName hint)) : d.isReferenceChar c = true := by
  cases d with
  | postgres => exact Text.isDigit_of_mem_decimal h
  | mysql => cases h
  | sqlite | sqlServer => exact Parameters.isNameChar_of_mem_freshName h

end Dialect

namespace Part

variable {d : Dialect} {ps : Parameters} {p : Part} {rest : List Char}

theorem tokens_write_value {hint : String} {v : BoundValue} {type : Option DataType}
    (h : Text.Stops d.isContinuing rest) :
    d.tokens ((Part.value hint v type).write d ps ++ rest) =
      (Part.value hint v type).tokens d ps ++ d.tokens rest := by
  have hReference {after : List Char} (hAfter : Text.Stops d.isReferenceChar after) :
      d.tokens (d.sigil :: d.reference (ps.size + 1) (ps.freshName hint) ++ after) =
        .placeholder (d.reference (ps.size + 1) (ps.freshName hint)) :: d.tokens after :=
    Dialect.tokens_placeholder (fun _ => Dialect.isReferenceChar_of_mem_reference) hAfter
  cases d with
  | postgres => 
    have hCast : Text.Stops Dialect.postgres.isReferenceChar (Dialect.castText type ++ rest) := by
      rw [Dialect.castText]
      split
      · rintro c ⟨⟩
        decide
      · exact Dialect.stops_reference h
    rw [write, Dialect.placeholder, List.append_assoc]
    refine (hReference hCast).trans ?_
    rw [Dialect.tokens_cast type (Dialect.stops_name h)]
    rfl
  | mysql | sqlite | sqlServer => exact hReference (Dialect.stops_reference h)

theorem tokens_write_mark {m : Mark} (hReadable : (Part.mark m).isReadable d = true)
    (h : (Part.mark m).isSeparator = true ∨ Text.Stops d.isContinuing rest) :
    d.tokens ((Part.mark m).write d ps ++ rest) = (Part.mark m).tokens d ps ++ d.tokens rest := by
  cases m with
  | space => exact Dialect.tokens_space
  | cast =>
    cases of_decide_eq_true hReadable
    exact Dialect.tokens_marks Mark.cast.text.toList (by decide)
  | backslash =>
    cases of_decide_eq_true hReadable
    have hQuote := (Dialect.head?_ne_of_stops (h.resolve_left (by decide))).2
    exact Dialect.tokens_literal (s := ['\\']) rfl hQuote
  | dot => exact Dialect.tokens_marks Mark.dot.text.toList (by cases d <;> decide)
  | comma => exact Dialect.tokens_marks Mark.comma.text.toList (by cases d <;> decide)
  | opening => exact Dialect.tokens_marks Mark.opening.text.toList (by cases d <;> decide)
  | closing => exact Dialect.tokens_marks Mark.closing.text.toList (by cases d <;> decide)
  | star => exact Dialect.tokens_marks Mark.star.text.toList (by cases d <;> decide)

/-- The text of a part is read as its tokens, unless what follows goes on with it. -/
theorem tokens_write (hReadable : p.isReadable d = true)
    (h : p.isSeparator = true ∨ Text.Stops d.isContinuing rest) :
    d.tokens (p.write d ps ++ rest) = p.tokens d ps ++ d.tokens rest := by
  cases p with
  | keyword k =>
    have hStops := Dialect.stops_name (h.resolve_left (by simp [isSeparator]))
    exact Dialect.tokens_word k.text_ne_nil k.isNameChar_text hStops
  | mark m => exact tokens_write_mark hReadable h
  | relation op =>
    exact Dialect.tokens_marks (relationText op).toList (by cases d <;> cases op <;> decide)
  | name s =>
    have hStops := h.resolve_left (by simp [isSeparator])
    exact Dialect.tokens_quote (Dialect.head?_ne_of_stops hStops).1
  | number n =>
    have hStops := Dialect.stops_name (h.resolve_left (by simp [isSeparator]))
    rw [write, tokens, Text.signedDecimal]
    split
    · rw [List.cons_append, Dialect.tokens_mark (by cases d <;> decide),
        Dialect.tokens_decimal _ hStops]
      rfl
    · exact Dialect.tokens_decimal _ hStops
  | value hint v type => exact tokens_write_value (h.resolve_left (by simp [isSeparator]))

theorem stops_write (h : p.isSeparator = true) :
    Text.Stops d.isContinuing (p.write d ps ++ rest) := by
  cases p with
  | mark m => 
    cases m with
    | backslash => cases h
    | _ =>
      rintro c ⟨⟩
      cases d <;> decide
  | relation op =>
    cases op <;>
    · rintro c ⟨⟩
      cases d <;> decide
  | keyword | name | number | value => cases h

end Part

namespace Draft

variable {d : Dialect} {a b : Draft}

theorem Legible.of_cons {p : Part} (h : Legible d (p :: a)) : Legible d a :=
  ⟨(List.forall_mem_cons.mp h.isReadable).2, h.apart.tail⟩

/-- The text of a legible draft is read as its tokens, unless what follows goes on with the last. -/
theorem tokens_write_append {rest : List Char} (ps : Parameters) (h : Legible d a)
    (hStops : Text.Stops d.isContinuing rest) :
    d.tokens (write d ps a ++ rest) = a.tokens d ps ++ d.tokens rest := by
  induction a generalizing ps with
  | nil => rfl
  | cons p more ih =>
    have hReadable := (List.forall_mem_cons.mp h.isReadable).1
    have hApart : p.isSeparator = true ∨
        Text.Stops d.isContinuing (write d (p.bind ps) more ++ rest) := by
      cases more with
      | nil => exact .inr hStops
      | cons q more =>
        refine (List.isChain_cons_cons.mp h.apart).1.imp_right fun hSeparator => ?_
        rw [write, List.append_assoc]
        exact Part.stops_write hSeparator
    rw [write, List.append_assoc, Part.tokens_write hReadable hApart, ih _ h.of_cons, tokens,
      List.append_assoc]

theorem tokens_write (ps : Parameters) (h : Legible d a) :
    d.tokens (write d ps a) = a.tokens d ps := by
  have hAppend := tokens_write_append ps h (show Text.Stops d.isContinuing [] by simp [Text.Stops])
  rwa [List.append_nil, Dialect.tokens_nil, List.append_nil] at hAppend

theorem forall_mem_intercalate {α : Type} {P : α → Prop} {separator : List α}
    {lists : List (List α)} (hSeparator : ∀ p ∈ separator, P p) (h : ∀ a ∈ lists, ∀ p ∈ a, P p) :
    ∀ p ∈ separator.intercalate lists, P p := by
  induction lists with
  | nil => simp
  | cons a rest ih =>
    rw [List.forall_mem_cons] at h
    cases rest with
    | nil => simpa using h.1
    | cons b rest =>
      rw [List.intercalate_cons_cons]
      exact List.forall_mem_append.mpr ⟨List.forall_mem_append.mpr ⟨h.1, hSeparator⟩, ih h.2⟩

@[simp] theorem legible_nil : Legible d [] := ⟨by simp, .nil⟩

@[simp] theorem legible_singleton {p : Part} : Legible d [p] ↔ p.isReadable d = true :=
  ⟨fun h => h.isReadable p (by simp), fun h => ⟨by simpa using h, .singleton p⟩⟩

theorem legible_cons_cons {p q : Part} :
    Legible d (p :: q :: a) ↔ p.isReadable d = true ∧ Apart p q ∧ Legible d (q :: a) := by
  constructor
  · intro h
    exact ⟨(List.forall_mem_cons.mp h.isReadable).1, (List.isChain_cons_cons.mp h.apart).1,
      h.of_cons⟩
  · rintro ⟨hReadable, hApart, h⟩
    exact ⟨List.forall_mem_cons.mpr ⟨hReadable, h.isReadable⟩, .cons_cons hApart h.apart⟩

theorem Legible.append_cons {p : Part} (hLeft : Legible d a) (hReadable : p.isReadable d = true)
    (hSeparator : p.isSeparator = true) (hRight : Legible d b) : Legible d (a ++ p :: b) where
  isReadable := by
    simp only [List.forall_mem_append, List.forall_mem_cons]
    exact ⟨hLeft.isReadable, hReadable, hRight.isReadable⟩
  apart := by
    refine List.isChain_append.mpr ⟨hLeft.apart, ?_, fun q _ p' hp => ?_⟩
    · cases b with
      | nil => exact .singleton p
      | cons q b => exact .cons_cons (.inl hSeparator) hRight.apart
    · cases hp
      exact .inr hSeparator

theorem Legible.cons {p : Part} (hReadable : p.isReadable d = true)
    (hSeparator : p.isSeparator = true) (h : Legible d a) : Legible d (p :: a) :=
  legible_nil.append_cons hReadable hSeparator h

theorem Legible.spaced {drafts : List Draft} (h : ∀ a ∈ drafts, Legible d a) :
    Legible d (spaced drafts) := by
  induction drafts with
  | nil => exact legible_nil
  | cons a rest ih =>
    rw [List.forall_mem_cons] at h
    cases rest with
    | nil => simpa [Draft.spaced] using h.1
    | cons b rest => exact h.1.append_cons rfl rfl (ih h.2)

theorem Legible.listed {drafts : List Draft} (h : ∀ a ∈ drafts, Legible d a) :
    Legible d (listed drafts) := by
  induction drafts with
  | nil => exact legible_nil
  | cons a rest ih =>
    rw [List.forall_mem_cons] at h
    cases rest with
    | nil => simpa [Draft.listed] using h.1
    | cons b rest => exact h.1.append_cons rfl rfl (.cons rfl rfl (ih h.2))

theorem Legible.enclosed (h : Legible d a) : Legible d (enclosed a) :=
  .cons rfl rfl (h.append_cons rfl rfl legible_nil)

theorem legible_words (ks : List Keyword) : Legible d (words ks) :=
  .spaced (by simp [Part.isReadable])

theorem legible_columnOf (aliasName column : String) : Legible d (columnOf aliasName column) :=
  Legible.append_cons (a := [.name aliasName]) (by simp [Part.isReadable]) rfl rfl
    (by simp [Part.isReadable])

theorem Legible.equals (hLeft : Legible d a) (hRight : Legible d b) : Legible d (equals a b) :=
  .spaced (by simp [Part.isReadable, hLeft, hRight])

end Draft

end TableGateway
