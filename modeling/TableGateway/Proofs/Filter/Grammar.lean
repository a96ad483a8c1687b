import TableGateway.Proofs.Formula
import TableGateway.Proofs.Outcome
import TableGateway.Query.Filter.Shape

/-!
# The grammar of filters

What a filter may look like, said without the readers. A condition is a column, an operator and a
value; conditions are the atoms of formulas over lexemes. Words are compared without regard to
ASCII case throughout.
-/

namespace TableGateway

namespace Lexeme

/-- Whether the lexeme is a bare word that spells this text. -/
def spells (s : String) : Lexeme → Bool
  | .word w => Text.sameName (String.ofList w) s
  | _ => false

/-- A bare `and` or `or`. -/
def isConnective (l : Lexeme) : Bool := l.spells "and" || l.spells "or"

/-- A quoted string or a bare word with this content. -/
def HasContent (l : Lexeme) (s : List Char) : Prop := l = .quoted s ∨ l = .word s

/-- At no place are more than `n` parentheses open. -/
def NestsWithin (n : Nat) (ls : List Lexeme) : Prop :=
  ∀ before after, ls = before ++ after → before.count .opening ≤ before.count .closing + n

end Lexeme

namespace Filter

/-- The value of a literal: operators that search for a text take it as it stands. -/
inductive Literal (c : Column) : Comparison → List Char → BoundValue → Prop
  | pattern {op s} : op = .contains ∨ op = .startsWith → Literal c op s (.text (String.ofList s))
  | typed {op s v} : op ≠ .contains → op ≠ .startsWith →
      BoundValue.ofText c (String.ofList s) = .ok v → Literal c op s v

/-- The items of a list with commas between them. -/
inductive Items (c : Column) : List Lexeme → List BoundValue → Prop
  | last {l s v} : l.HasContent s → BoundValue.ofText c (String.ofList s) = .ok v →
      Items c [l] [v]
  | cons {l s v ls vs} : l.HasContent s → BoundValue.ofText c (String.ofList s) = .ok v →
      Items c ls vs → Items c (l :: .comma :: ls) (v :: vs)

/-- What stands behind an operator. -/
inductive Value (c : Column) : Comparison → List Lexeme → Operand → Prop
  | list {ls vs} : Items c ls vs → Value c .within (.opening :: ls ++ [.closing]) (.list vs)
  | quoted {op s v} : op ≠ .within → Literal c op s v → Value c op [.quoted s] (.single v)
  | null {op w} : op = .eq ∨ op = .ne → (Lexeme.word w).spells "null" = true →
      Value c op [.word w] (.single .null)
  | word {op w v} : op ≠ .within → (Lexeme.word w).isConnective = false →
      (Lexeme.word w).spells "null" = false → Literal c op w v → Value c op [.word w] (.single v)

/-- Column, operator and value. -/
inductive Written (e : Entity) : List Lexeme → Condition → Prop
  | mk {w c l op ls v} : (Lexeme.word w).isConnective = false →
      e.column? (String.ofList w) = some c → l.spells op.word = true → Value c op ls v →
      Written e (.word w :: l :: ls) ⟨e.aliasName, c.name, c.type, op, v⟩

def grammar (e : Entity) : Grammar Lexeme Condition where
  opening := .opening
  closing := .closing
  spells op l := l.spells op.word = true
  atom := Written e

def formula : Filter → Formula Condition
  | .condition c => .atom c
  | .combined left op right => .combined left.formula op right.formula
  | .group inner => .group inner.formula

theorem conditions_eq_atoms (f : Filter) : f.conditions = f.formula.atoms := by
  induction f with
  | condition c => rfl
  | combined left op right ihLeft ihRight =>
    simp [conditions, formula, Formula.atoms, ihLeft, ihRight]
  | group inner ih => exact ih

theorem spells_word_iff {w : List Char} {s : String} :
    (Lexeme.word w).spells s = true ↔ w.map Char.toLower = Text.folded s := by
  rw [Lexeme.spells, Text.sameName_eq_true_iff, Text.folded, String.toList_ofList]

theorem spells_iff {l : Lexeme} {s : String} :
    l.spells s = true ↔ ∃ w, l = .word w ∧ w.map Char.toLower = Text.folded s := by
  cases l with
  | word w => simp [spells_word_iff]
  | _ => simp [Lexeme.spells]

theorem combinator_eq_some_iff {w : List Char} {op : Combinator} :
    Combinator.ofWord? w = some op ↔ (Lexeme.word w).spells op.word = true := by
  have hDistinct : ∀ a b : Combinator, Text.folded a.word = Text.folded b.word → a = b := by
    intro a b
    cases a <;> cases b <;> decide
  rw [spells_word_iff, Combinator.ofWord?, find?_eq_some_iff_of_unique (by cases op <;> simp)]
  · simp
  · intro b _ hOp hB
    exact hDistinct b op (by simp_all)

theorem comparison_eq_some_iff {w : List Char} {op : Comparison} :
    Comparison.ofWord? w = some op ↔ (Lexeme.word w).spells op.word = true := by
  have hDistinct : ∀ a b : Comparison, a.word.toList = b.word.toList → a = b := by
    intro a b
    cases a <;> cases b <;> decide
  have hFolded : Text.folded op.word = op.word.toList := by cases op <;> decide
  rw [spells_word_iff, hFolded, Comparison.ofWord?,
    find?_eq_some_iff_of_unique (by cases op <;> simp [Comparison.all])]
  · simp
  · intro b _ hOp hB
    exact hDistinct b op (by simp_all)

theorem isConnective_iff {l : Lexeme} :
    l.isConnective = true ↔ ∃ op : Combinator, l.spells op.word = true := by
  cases l with
  | word w =>
    rw [Lexeme.isConnective, Bool.or_eq_true]
    constructor
    · rintro (h | h)
      · exact ⟨.and, spells_word_iff.mpr (spells_word_iff.mp h)⟩
      · exact ⟨.or, spells_word_iff.mpr (spells_word_iff.mp h)⟩
    · rintro ⟨_ | _, h⟩
      · exact .inl (spells_word_iff.mpr (spells_word_iff.mp h))
      · exact .inr (spells_word_iff.mpr (spells_word_iff.mp h))
  | _ => simp [Lexeme.isConnective, Lexeme.spells]

theorem isSome_combinator {w : List Char} :
    (Combinator.ofWord? w).isSome = (Lexeme.word w).isConnective := by
  rw [Bool.eq_iff_iff, isConnective_iff, Option.isSome_iff_exists]
  exact exists_congr fun op => combinator_eq_some_iff

theorem isCombinator_eq_isConnective (l : Lexeme) : l.isCombinator = l.isConnective := by
  cases l with
  | word w => exact isSome_combinator
  | _ => rfl

theorem Items.no_parentheses {c : Column} {ls : List Lexeme} {vs : List BoundValue}
    (h : Items c ls vs) : ∀ l ∈ ls, l ≠ .opening ∧ l ≠ .closing := by
  induction h with
  | last hContent _ => rcases hContent with rfl | rfl <;> simp
  | cons hContent _ _ ih => rcases hContent with rfl | rfl <;> simpa using ih

theorem Value.balanced {c : Column} {op : Comparison} {ls : List Lexeme} {v : Operand}
    (e : Entity) (h : Value c op ls v) : (grammar e).Balanced ls := by
  cases h with
  | list hItems =>
    exact (Grammar.Balanced.of_forall hItems.no_parentheses).group (by simp [grammar])
  | quoted | null | word => exact Grammar.Balanced.singleton (by simp [grammar]) (by simp [grammar])

theorem grammar_lawful (e : Entity) : (grammar e).Lawful where
  opening_ne_closing := by simp [grammar]
  ne_opening := by
    rintro op l hSpells rfl
    cases hSpells
  ne_closing := by
    rintro op l hSpells rfl
    cases hSpells
  atom_balanced := by
    rintro ls c ⟨-, -, hOperator, hValue⟩
    obtain ⟨w, rfl, -⟩ := spells_iff.mp hOperator
    have hFront (w w' : List Char) : (grammar e).Balanced [.word w, .word w'] :=
      .of_forall (by simp [grammar])
    exact (hFront _ _).append (hValue.balanced e)

end Filter

end TableGateway
