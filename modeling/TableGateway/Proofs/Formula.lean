import Mathlib.Data.List.Basic
import TableGateway.Query.Filter.Basic

/-!
# Formulas and their grammar

Atoms are combined by `and` and `or`, and parentheses stay in the tree. The grammar is the usual
one: parentheses first, `and` before `or`, and operators of one kind from left to right. What the
tokens and the atoms are is a parameter, since filters and the conditions of statements are both
written by it. Where atoms can be told apart, every sequence of tokens has at most one reading.
-/

namespace TableGateway

inductive Formula (α : Type)
  | atom (a : α)
  | combined (left : Formula α) (op : Combinator) (right : Formula α)
  | group (inner : Formula α)

namespace Formula

variable {α β : Type}

def map (f : α → β) : Formula α → Formula β
  | .atom a => .atom (f a)
  | .combined left op right => .combined (left.map f) op (right.map f)
  | .group inner => .group (inner.map f)

/-- The atoms in the order in which they are written. -/
def atoms : Formula α → List α
  | .atom a => [a]
  | .combined left _ right => left.atoms ++ right.atoms
  | .group inner => inner.atoms

/-- The truth values of SQL; `none` is unknown. -/
abbrev Truth := Option Bool

def conjunction : Truth → Truth → Truth
  | some false, _ | _, some false => some false
  | some true, some true => some true
  | _, _ => none

def disjunction : Truth → Truth → Truth
  | some true, _ | _, some true => some true
  | some false, some false => some false
  | _, _ => none

def connect : Combinator → Truth → Truth → Truth
  | .and => conjunction
  | .or => disjunction

/-- The truth of a formula whose atoms have the values of `v` in the order in which they are
written. -/
def truth (v : Nat → Truth) : Formula α → Truth
  | .atom _ => v 0
  | .combined left op right =>
    connect op (left.truth v) (right.truth fun n => v (left.atoms.length + n))
  | .group inner => inner.truth v

@[simp] theorem atoms_map (f : α → β) (F : Formula α) : (F.map f).atoms = F.atoms.map f := by
  induction F with
  | atom a => rfl
  | combined left op right ihLeft ihRight => simp [map, atoms, ihLeft, ihRight]
  | group inner ih => simpa [map, atoms] using ih

@[simp] theorem truth_map (f : α → β) (v : Nat → Truth) (F : Formula α) :
    (F.map f).truth v = F.truth v := by
  induction F generalizing v with
  | atom a => rfl
  | combined left op right ihLeft ihRight => simp [map, truth, ihLeft, ihRight]
  | group inner ih => exact ih v

end Formula

/-- The tokens of formulas, and which of their sequences are atoms. -/
structure Grammar (τ α : Type) where
  opening : τ
  closing : τ
  spells : Combinator → τ → Prop
  atom : List τ → α → Prop

inductive Rank
  | term | conjunction | expression

namespace Grammar

variable {τ α : Type} (G : Grammar τ α)

inductive Derives : Rank → List τ → Formula α → Prop
  | atom {ts a} : G.atom ts a → Derives .term ts (.atom a)
  | group {ts F} : Derives .expression ts F →
      Derives .term (G.opening :: ts ++ [G.closing]) (.group F)
  | single {ts F} : Derives .term ts F → Derives .conjunction ts F
  | and {ts F t us H} : Derives .conjunction ts F → G.spells .and t → Derives .term us H →
      Derives .conjunction (ts ++ t :: us) (.combined F .and H)
  | alternative {ts F} : Derives .conjunction ts F → Derives .expression ts F
  | or {ts F t us H} : Derives .expression ts F → G.spells .or t → Derives .conjunction us H →
      Derives .expression (ts ++ t :: us) (.combined F .or H)

theorem cut_group {o c : τ} {ts us vs : List τ} (h : o :: ts ++ [c] = us ++ vs) :
    us = [] ∨ vs = [] ∨ ∃ as bs, us = o :: as ∧ ts = as ++ bs ∧ vs = bs ++ [c] := by
  rcases List.cons_eq_append_iff.mp h with ⟨hUs, -⟩ | ⟨as, rfl, hAs⟩
  · exact .inl hUs
  rcases List.append_eq_append_iff.mp hAs with ⟨bs, rfl, hVs⟩ | ⟨bs, hTs, hVs⟩
  · rcases List.singleton_eq_append_iff.mp hVs with ⟨rfl, rfl⟩ | ⟨-, rfl⟩
    · exact .inr (.inr ⟨ts, [], by simp, by simp, rfl⟩)
    · exact .inr (.inl rfl)
  · exact .inr (.inr ⟨as, bs, rfl, hTs, hVs⟩)

/-- The pieces stand in a sequence one behind the other. -/
inductive Occur : List (List τ) → List τ → Prop
  | nil (ts) : Occur [] ts
  | cons (before piece) {pieces after} : Occur pieces after →
      Occur (piece :: pieces) (before ++ piece ++ after)

theorem Occur.prepend {ps : List (List τ)} {ts : List τ} (us : List τ) (h : Occur ps ts) :
    Occur ps (us ++ ts) := by
  cases h with
  | nil => exact .nil _
  | cons before piece h => simpa [List.append_assoc] using Occur.cons (us ++ before) piece h

theorem Occur.append {ps qs : List (List τ)} {ts us : List τ} (hLeft : Occur ps ts)
    (hRight : Occur qs us) : Occur (ps ++ qs) (ts ++ us) := by
  induction hLeft with
  | nil ts => exact hRight.prepend ts
  | cons before piece _ ih => simpa [List.append_assoc] using Occur.cons before piece ih

variable {G} in
/-- The atoms of a formula are written in their order, each by its own tokens. -/
theorem Derives.atoms_occur {r : Rank} {ts : List τ} {F : Formula α} (h : G.Derives r ts F) :
    ∃ pieces : List (List τ × α), F.atoms = pieces.map Prod.snd ∧
      (∀ p ∈ pieces, G.atom p.1 p.2) ∧ Occur (pieces.map Prod.fst) ts := by
  induction h with
  | @atom ts a h =>
    have hWhole : Occur [ts] ts := by simpa using Occur.cons [] ts (.nil [])
    exact ⟨[(ts, a)], rfl, by simpa using h, hWhole⟩
  | @group ts F _ ih =>
    obtain ⟨pieces, hAtoms, hWritten, hOccur⟩ := ih
    have hInside : Occur (pieces.map Prod.fst ++ []) ((G.opening :: ts) ++ [G.closing]) :=
      (hOccur.prepend [G.opening]).append (.nil _)
    exact ⟨pieces, hAtoms, hWritten, by simpa using hInside⟩
  | single _ ih | alternative _ ih => exact ih
  | @and ts F t us H _ _ _ ihLeft ihRight | @or ts F t us H _ _ _ ihLeft ihRight =>
    obtain ⟨ps, hPs, hWrittenPs, hOccurPs⟩ := ihLeft
    obtain ⟨qs, hQs, hWrittenQs, hOccurQs⟩ := ihRight
    refine ⟨ps ++ qs, ?_, ?_, ?_⟩
    · rw [Formula.atoms, hPs, hQs, List.map_append]
    · rw [List.forall_mem_append]
      exact ⟨hWrittenPs, hWrittenQs⟩
    · rw [List.map_append]
      exact hOccurPs.append (hOccurQs.prepend [t])

section Level

variable [DecidableEq τ]

/-- How many more parentheses were opened than closed. -/
def level (ts : List τ) : Int := (ts.count G.opening : Int) - ts.count G.closing

@[simp] theorem level_nil : G.level [] = 0 := by simp [level]

@[simp] theorem level_append (ts us : List τ) : G.level (ts ++ us) = G.level ts + G.level us := by
  simp only [level, List.count_append, Int.natCast_add]
  omega

theorem level_cons (t : τ) (ts : List τ) : G.level (t :: ts) = G.level [t] + G.level ts :=
  G.level_append [t] ts

/-- Every parenthesis that is closed was opened, and every one that was opened is closed. -/
structure Balanced (ts : List τ) : Prop where
  level_eq : G.level ts = 0
  nonneg : ∀ {us vs}, ts = us ++ vs → 0 ≤ G.level us

/-- Tokens that spell this combinator stand in parentheses only. -/
def Encloses (op : Combinator) (ts : List τ) : Prop :=
  ∀ us t vs, ts = us ++ t :: vs → G.spells op t → G.level us ≠ 0

/-- Parentheses and combinators are different tokens, and an atom closes what it opens. -/
structure Lawful : Prop where
  opening_ne_closing : G.opening ≠ G.closing
  ne_opening : ∀ {op t}, G.spells op t → t ≠ G.opening
  ne_closing : ∀ {op t}, G.spells op t → t ≠ G.closing
  atom_balanced : ∀ {ts a}, G.atom ts a → G.Balanced ts

/-- An atom can be told from what stands around it: it does not start with a parenthesis, and
combinators stand inside its parentheses only. -/
structure Separates : Prop extends G.Lawful where
  spells_unique : ∀ {op op' t}, G.spells op t → G.spells op' t → op = op'
  atom_unique : ∀ {ts a b}, G.atom ts a → G.atom ts b → a = b
  atom_head : ∀ {ts a}, G.atom ts a → ts.head? ≠ some G.opening
  atom_encloses : ∀ {ts a}, G.atom ts a → ∀ op, G.Encloses op ts

variable {G}

theorem Balanced.append {ts us : List τ} (hLeft : G.Balanced ts) (hRight : G.Balanced us) :
    G.Balanced (ts ++ us) where
  level_eq := by rw [level_append, hLeft.level_eq, hRight.level_eq, Int.zero_add]
  nonneg := by
    intro vs ws h
    rcases List.append_eq_append_iff.mp h with ⟨as, rfl, -⟩ | ⟨bs, hTs, -⟩
    · rw [level_append, hLeft.level_eq, Int.zero_add]
      exact hRight.nonneg (by simpa using h)
    · exact hLeft.nonneg hTs

theorem Balanced.singleton {t : τ} (hOpening : t ≠ G.opening) (hClosing : t ≠ G.closing) :
    G.Balanced [t] where
  level_eq := by simp [level, hOpening, hClosing]
  nonneg := by
    intro us vs h
    rcases List.append_eq_singleton_iff.mp h.symm with ⟨rfl, -⟩ | ⟨rfl, -⟩
    · simp
    · simp [level, hOpening, hClosing]

theorem Balanced.nil : G.Balanced [] where
  level_eq := G.level_nil
  nonneg := by
    intro us vs h
    obtain ⟨rfl, -⟩ := List.append_eq_nil_iff.mp h.symm
    simp

theorem Balanced.of_forall {ts : List τ} (h : ∀ t ∈ ts, t ≠ G.opening ∧ t ≠ G.closing) :
    G.Balanced ts := by
  induction ts with
  | nil => exact .nil
  | cons t ts ih =>
    rw [List.forall_mem_cons] at h
    exact (Balanced.singleton h.1.1 h.1.2).append (ih h.2)

theorem level_opening (hNe : G.opening ≠ G.closing) : G.level [G.opening] = 1 := by
  simp [level, hNe]

theorem level_closing (hNe : G.opening ≠ G.closing) : G.level [G.closing] = -1 := by
  simp [level, hNe.symm]

theorem Balanced.group {ts : List τ} (hNe : G.opening ≠ G.closing) (h : G.Balanced ts) :
    G.Balanced (G.opening :: ts ++ [G.closing]) where
  level_eq := by
    rw [level_append, level_cons, h.level_eq, level_opening hNe, level_closing hNe]
    rfl
  nonneg := by
    intro us vs hCut
    rcases cut_group hCut with rfl | rfl | ⟨as, bs, rfl, hTs, -⟩
    · simp
    · rw [List.append_nil] at hCut
      rw [← hCut, level_append, level_cons, h.level_eq, level_opening hNe, level_closing hNe]
      decide
    · have := h.nonneg hTs
      rw [level_cons, level_opening hNe]
      omega

namespace Lawful

theorem balanced_spelled (hG : G.Lawful) {op : Combinator} {t : τ} (h : G.spells op t) :
    G.Balanced [t] :=
  Balanced.singleton (hG.ne_opening h) (hG.ne_closing h)

theorem level_spelled (hG : G.Lawful) {op : Combinator} {t : τ} (h : G.spells op t) :
    G.level [t] = 0 :=
  (hG.balanced_spelled h).level_eq

theorem encloses_group (hG : G.Lawful) {ts : List τ} (h : G.Balanced ts) (op : Combinator) :
    G.Encloses op (G.opening :: ts ++ [G.closing]) := by
  intro us t vs hCut hSpells
  rcases cut_group hCut with rfl | hVs | ⟨as, bs, rfl, hTs, -⟩
  · have hHead : t = G.opening := by simpa using (congrArg List.head? hCut).symm
    exact absurd hHead (hG.ne_opening hSpells)
  · cases hVs
  · have := h.nonneg hTs
    rw [level_cons, level_opening hG.opening_ne_closing]
    omega

end Lawful

namespace Derives

variable {r : Rank} {ts us : List τ} {F H : Formula α}

theorem balanced (hG : G.Lawful) (h : G.Derives r ts F) : G.Balanced ts := by
  induction h with
  | atom h => exact hG.atom_balanced h
  | group _ ih => exact ih.group hG.opening_ne_closing
  | single _ ih | alternative _ ih => exact ih
  | and _ hSpells _ ihLeft ihRight | or _ hSpells _ ihLeft ihRight =>
    exact ihLeft.append ((hG.balanced_spelled hSpells).append ihRight)

theorem term_encloses (hG : G.Separates) (h : G.Derives .term ts F) (op : Combinator) :
    G.Encloses op ts := by
  cases h with
  | atom h => exact hG.atom_encloses h op
  | group h => exact hG.encloses_group (h.balanced hG.toLawful) op

/-- Where a sequence is cut at its level, all before the cut is at the level. -/
theorem encloses_append {op op' : Combinator} {t : τ} (hG : G.Separates) (hSpells : G.spells op' t)
    (hNe : op ≠ op') (hBalanced : G.Balanced ts) (hLeft : G.Encloses op ts)
    (hRight : G.Encloses op us) : G.Encloses op (ts ++ t :: us) := by
  intro vs x ws hCut hX
  rcases List.append_eq_append_iff.mp hCut with ⟨as, rfl, hAs⟩ | ⟨bs, hTs, hBs⟩
  · rcases List.cons_eq_append_iff.mp hAs with ⟨rfl, hEq⟩ | ⟨as, rfl, hUs⟩
    · cases hEq
      exact absurd (hG.spells_unique hX hSpells) hNe
    · have := hRight as x ws hUs hX
      rw [level_append, level_cons, hBalanced.level_eq, hG.level_spelled hSpells]
      omega
  · rcases List.cons_eq_append_iff.mp hBs with ⟨rfl, hEq⟩ | ⟨bs, rfl, -⟩
    · cases hEq
      exact absurd (hG.spells_unique hX hSpells) hNe
    · exact hLeft vs x bs hTs hX

theorem conjunction_encloses (hG : G.Separates) (h : G.Derives .conjunction ts F) :
    G.Encloses .or ts := by
  generalize hr : Rank.conjunction = r at h
  induction h with
  | atom | group | alternative | or => cases hr
  | single h => exact h.term_encloses hG .or
  | and hLeft hSpells hRight ih _ =>
    exact encloses_append hG hSpells (by decide) (hLeft.balanced hG.toLawful) (ih rfl)
      (hRight.term_encloses hG .or)

/-- Of two cuts at a combinator the earlier one leaves the combinator of the later one to its right,
at the level of the whole. -/
theorem cut_unique {op : Combinator} {t t' : τ} {ts' us' : List τ} (hG : G.Separates)
    (hSpells : G.spells op t) (hSpells' : G.spells op t')
    (hTs : G.level ts = 0) (hTs' : G.level ts' = 0)
    (hUs : G.Encloses op us) (hUs' : G.Encloses op us')
    (h : ts ++ t :: us = ts' ++ t' :: us') : ts = ts' ∧ t = t' ∧ us = us' := by
  rcases List.append_eq_append_iff.mp h with ⟨as, rfl, hAs⟩ | ⟨as, rfl, hAs⟩
  · rcases List.cons_eq_append_iff.mp hAs with ⟨rfl, hEq⟩ | ⟨as, rfl, hEq⟩
    · cases hEq
      exact ⟨by simp, rfl, rfl⟩
    · rw [level_append, level_cons, hTs, hG.level_spelled hSpells] at hTs'
      exact absurd (by omega) (hUs as t' us' hEq hSpells')
  · rcases List.cons_eq_append_iff.mp hAs with ⟨rfl, hEq⟩ | ⟨as, rfl, hEq⟩
    · cases hEq
      exact ⟨by simp, rfl, rfl⟩
    · rw [level_append, level_cons, hTs', hG.level_spelled hSpells'] at hTs
      exact absurd (by omega) (hUs' as t us hEq hSpells)

/-- A sequence of tokens is read in at most one way. -/
theorem unique (hG : G.Separates) (h : G.Derives r ts F) (h' : G.Derives r ts H) : F = H := by
  induction h generalizing H with
  | atom hAtom =>
    cases h' with
    | atom hAtom' => rw [hG.atom_unique hAtom hAtom']
    | group => exact absurd rfl (hG.atom_head hAtom)
  | @group ts F hInner ih =>
    generalize hUs : G.opening :: ts ++ [G.closing] = us at h'
    cases h' with
    | atom hAtom' =>
      subst hUs
      exact absurd rfl (hG.atom_head hAtom')
    | group hInner' =>
      rw [List.cons_append, List.cons_append, List.cons.injEq, List.append_cancel_right_eq] at hUs
      rw [ih (hUs.2 ▸ hInner')]
  | single hTerm ih =>
    cases h' with
    | single hTerm' => exact ih hTerm'
    | and hLeft' hSpells' =>
      exact absurd (hLeft'.balanced hG.toLawful).level_eq
        (hTerm.term_encloses hG .and _ _ _ rfl hSpells')
  | @and ts F t us H hLeft hSpells hRight ihLeft ihRight =>
    generalize hVs : ts ++ t :: us = vs at h'
    cases h' with
    | single hTerm' =>
      exact absurd (hLeft.balanced hG.toLawful).level_eq
        (hTerm'.term_encloses hG .and _ _ _ hVs.symm hSpells)
    | and hLeft' hSpells' hRight' =>
      obtain ⟨rfl, -, rfl⟩ := cut_unique hG hSpells hSpells' (hLeft.balanced hG.toLawful).level_eq
        (hLeft'.balanced hG.toLawful).level_eq (hRight.term_encloses hG .and)
        (hRight'.term_encloses hG .and) hVs
      rw [ihLeft hLeft', ihRight hRight']
  | alternative hConj ih =>
    cases h' with
    | alternative hConj' => exact ih hConj'
    | or hLeft' hSpells' =>
      exact absurd (hLeft'.balanced hG.toLawful).level_eq
        (hConj.conjunction_encloses hG _ _ _ rfl hSpells')
  | @or ts F t us H hLeft hSpells hRight ihLeft ihRight =>
    generalize hVs : ts ++ t :: us = vs at h'
    cases h' with
    | alternative hConj' =>
      exact absurd (hLeft.balanced hG.toLawful).level_eq
        (hConj'.conjunction_encloses hG _ _ _ hVs.symm hSpells)
    | or hLeft' hSpells' hRight' =>
      obtain ⟨rfl, -, rfl⟩ := cut_unique hG hSpells hSpells' (hLeft.balanced hG.toLawful).level_eq
        (hLeft'.balanced hG.toLawful).level_eq (hRight.conjunction_encloses hG)
        (hRight'.conjunction_encloses hG) hVs
      rw [ihLeft hLeft', ihRight hRight']

end Derives

end Level

end Grammar

end TableGateway
