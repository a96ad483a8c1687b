import TableGateway.Proofs.Filter.Grammar
import TableGateway.Query.Filter.Parser

/-!
# Chains and trees

A chain that is read from left to right and then assembled is the tree that the grammar gives. The
grammar cuts at the last combinator and the chain starts with its first term, so the two are
compared by what is still to be assembled.
-/

namespace TableGateway.Filter

variable {e : Entity} {us vs : List Lexeme} {f g t : Filter} {ts : List (Combinator × Filter)}
  {left : Option Filter}

theorem formula_eq_atom_iff {c : Condition} : f.formula = .atom c ↔ f = .condition c := by
  cases f <;> simp [formula]

theorem formula_eq_group_iff {F : Formula Condition} :
    f.formula = .group F ↔ ∃ inner, f = .group inner ∧ inner.formula = F := by
  cases f <;> simp [formula]

theorem formula_eq_combined_iff {F H : Formula Condition} {op : Combinator} :
    f.formula = .combined F op H ↔ ∃ g h, f = .combined g op h ∧ g.formula = F ∧ h.formula = H := by
  cases f with
  | combined g op' h =>
    simp only [formula, Formula.combined.injEq, combined.injEq]
    constructor
    · rintro ⟨rfl, rfl, rfl⟩
      exact ⟨g, h, ⟨rfl, rfl, rfl⟩, rfl, rfl⟩
    · rintro ⟨g', h', ⟨rfl, rfl, rfl⟩, rfl, rfl⟩
      exact ⟨rfl, rfl, rfl⟩
  | condition | group => simp [formula]

/-- Lexemes that are combinators, each with a term behind it. -/
inductive Tail (e : Entity) : List Lexeme → List (Combinator × Filter) → Prop
  | nil : Tail e [] []
  | cons {l op us t vs ts} : l.spells op.word = true → (grammar e).Derives .term us t.formula →
      Tail e vs ts → Tail e (l :: us ++ vs) ((op, t) :: ts)

theorem Tail.append {more : List (Combinator × Filter)} (hLeft : Tail e us ts)
    (hRight : Tail e vs more) : Tail e (us ++ vs) (ts ++ more) := by
  induction hLeft with
  | nil => exact hRight
  | cons hSpells hTerm _ ih => simpa using Tail.cons hSpells hTerm ih

/-- Lexemes of the finished alternatives, with the combinator behind them. -/
inductive Finished (e : Entity) : Option Filter → List Lexeme → Prop
  | none : Finished e none []
  | some {f us l} : (grammar e).Derives .expression us f.formula →
      l.spells Combinator.or.word = true → Finished e (some f) (us ++ [l])

theorem Finished.derives_orElse (hLeft : Finished e left us)
    (h : (grammar e).Derives .conjunction vs f.formula) :
    (grammar e).Derives .expression (us ++ vs) (orElse left f).formula := by
  cases hLeft with
  | none => exact .alternative h
  | some hExpression hSpells =>
    simpa [orElse, formula] using Grammar.Derives.or hExpression hSpells h

theorem Tail.derives_assemble {ws : List Lexeme} (hTail : Tail e ws ts) (hLeft : Finished e left us)
    (h : (grammar e).Derives .conjunction vs f.formula) :
    (grammar e).Derives .expression (us ++ vs ++ ws) (assemble left f ts).formula := by
  induction hTail generalizing left us vs f with
  | nil => simpa [assemble] using hLeft.derives_orElse h
  | @cons l op ms t ws ts hSpells hTerm _ ih =>
    cases op with
    | and => simpa [assemble] using ih hLeft (f := .combined f .and t) (.and h hSpells hTerm)
    | or => simpa [assemble] using ih (.some (hLeft.derives_orElse h) hSpells) (.single hTerm)

theorem exists_terms_of_conjunction (h : (grammar e).Derives .conjunction us f.formula) :
    ∃ t ts vs ws, us = vs ++ ws ∧ (grammar e).Derives .term vs t.formula ∧ Tail e ws ts ∧
      ∀ left more, assemble left t (ts ++ more) = assemble left f more := by
  generalize hr : Rank.conjunction = r, hF : f.formula = F at h
  induction h generalizing f with
  | atom | group | alternative | or => cases hr
  | single hTerm =>
    subst hF
    exact ⟨f, [], _, [], by simp, hTerm, .nil, fun _ _ => rfl⟩
  | @and us F l ms H _ hSpells hTerm ih _ =>
    obtain ⟨g, t', rfl, rfl, rfl⟩ := formula_eq_combined_iff.mp hF
    obtain ⟨t, ts, vs, ws, rfl, hFirst, hTail, hAssemble⟩ := ih rfl rfl
    refine ⟨t, ts ++ [(.and, t')], vs, ws ++ (l :: ms), by simp, hFirst,
      hTail.append (by simpa using Tail.cons hSpells hTerm .nil), fun left more => ?_⟩
    rw [List.append_assoc, hAssemble]
    rfl

theorem exists_terms_of_expression (h : (grammar e).Derives .expression us f.formula) :
    ∃ t ts vs ws left g, us = vs ++ ws ∧ (grammar e).Derives .term vs t.formula ∧ Tail e ws ts ∧
      orElse left g = f ∧ ∀ more, assemble none t (ts ++ more) = assemble left g more := by
  generalize hr : Rank.expression = r, hF : f.formula = F at h
  induction h generalizing f with
  | atom | group | single | and => cases hr
  | alternative hConjunction =>
    subst hF
    obtain ⟨t, ts, vs, ws, rfl, hFirst, hTail, hAssemble⟩ :=
      exists_terms_of_conjunction hConjunction
    exact ⟨t, ts, vs, ws, none, f, rfl, hFirst, hTail, rfl, hAssemble none⟩
  | @or us F l ms H _ hSpells hConjunction ih _ =>
    obtain ⟨g, g', rfl, rfl, rfl⟩ := formula_eq_combined_iff.mp hF
    obtain ⟨t, ts, vs, ws, left, last, rfl, hFirst, hTail, rfl, hAssemble⟩ := ih rfl rfl
    obtain ⟨t', ts', vs', ws', rfl, hFirst', hTail', hAssemble'⟩ :=
      exists_terms_of_conjunction hConjunction
    refine ⟨t, ts ++ (.or, t') :: ts', vs, ws ++ (l :: vs' ++ ws'), some (orElse left last), g',
      by simp, hFirst, hTail.append (.cons hSpells hFirst' hTail'), rfl, fun more => ?_⟩
    rw [List.append_assoc, hAssemble, ← hAssemble']
    rfl

theorem derives_expression_iff :
    (grammar e).Derives .expression us f.formula ↔
      ∃ t ts vs ws, us = vs ++ ws ∧ (grammar e).Derives .term vs t.formula ∧ Tail e ws ts ∧
        assemble none t ts = f := by
  constructor
  · intro h
    obtain ⟨t, ts, vs, ws, left, g, hCut, hFirst, hTail, hLast, hAssemble⟩ :=
      exists_terms_of_expression h
    refine ⟨t, ts, vs, ws, hCut, hFirst, hTail, ?_⟩
    rw [← hLast, ← List.append_nil ts, hAssemble, assemble]
  · rintro ⟨t, ts, vs, ws, rfl, hFirst, hTail, rfl⟩
    exact hTail.derives_assemble .none (.single hFirst)

end TableGateway.Filter
