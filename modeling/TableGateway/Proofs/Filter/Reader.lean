import TableGateway.Proofs.Filter.Chain
import TableGateway.Proofs.Filter.Conditions

/-!
# The reader of filters

The readers of terms and chains take what the grammar gives. A term ends by itself; a chain goes on
as long as combinators follow. Each reader is exact where the readers it calls are, and it calls
them on shorter lists.
-/

namespace TableGateway.Filter

variable {e : Entity} {ls us rest : List Lexeme} {f t : Filter} {ts : List (Combinator × Filter)}

/-- No combinator comes first. -/
def EndsChain (rest : List Lexeme) : Prop := ∀ l ∈ rest.head?, l.isConnective = false

theorem derives_head {r : Rank} {F : Formula Condition} (h : (grammar e).Derives r us F) :
    ∃ l vs, us = l :: vs ∧
      (l = .opening ∨ ∃ w, l = .word w ∧ (Lexeme.word w).isConnective = false) := by
  induction h with
  | atom hWritten =>
    obtain ⟨hWord, -⟩ := hWritten
    exact ⟨_, _, rfl, .inr ⟨_, rfl, hWord⟩⟩
  | group => exact ⟨_, _, rfl, .inl rfl⟩
  | single _ ih | alternative _ ih => exact ih
  | and _ _ _ ih _ | or _ _ _ ih _ =>
    obtain ⟨l, vs, rfl, hHead⟩ := ih
    exact ⟨l, _, rfl, hHead⟩

theorem not_derives_closing {vs : List Lexeme} {r : Rank} {F : Formula Condition} :
    ¬ (grammar e).Derives r (.closing :: vs) F := by
  intro h
  obtain ⟨l, vs, hCons, hHead⟩ := derives_head h
  cases hCons
  simp at hHead

theorem exists_term_opening_iff {next : List Lexeme} :
    (∃ us, .opening :: next = us ++ rest ∧ (grammar e).Derives .term us t.formula) ↔
      ∃ vs inner, next = vs ++ .closing :: rest ∧ t = .group inner ∧
        (grammar e).Derives .expression vs inner.formula := by
  constructor
  · rintro ⟨us, hCut, h⟩
    generalize hF : t.formula = F at h
    cases h with
    | atom hWritten =>
      obtain ⟨-⟩ := hWritten
      cases hCut
    | group hInner =>
      obtain ⟨inner, rfl, rfl⟩ := formula_eq_group_iff.mp hF
      exact ⟨_, inner, by simpa [grammar] using hCut, rfl, hInner⟩
  · rintro ⟨vs, inner, rfl, rfl, hInner⟩
    exact ⟨_, by simp [grammar], .group hInner⟩

theorem exists_term_word_iff {w : List Char} {next : List Lexeme} :
    (∃ us, .word w :: next = us ++ rest ∧ (grammar e).Derives .term us t.formula) ↔
      (Lexeme.word w).isConnective = false ∧
        ∃ vs c, next = vs ++ rest ∧ t = .condition c ∧ Written e (.word w :: vs) c := by
  constructor
  · rintro ⟨us, hCut, h⟩
    generalize hF : t.formula = F at h
    cases h with
    | atom hWritten =>
      have hWord := hWritten
      obtain ⟨hWord, -⟩ := hWord
      cases hCut
      exact ⟨hWord, _, _, rfl, formula_eq_atom_iff.mp hF, hWritten⟩
    | group => cases hCut
  · rintro ⟨-, vs, c, rfl, rfl, hWritten⟩
    exact ⟨.word w :: vs, rfl, .atom hWritten⟩

theorem not_isDangling (h : (grammar e).Derives .term us t.formula) :
    isDangling (us ++ rest) = false := by
  obtain ⟨l, vs, rfl, rfl | ⟨w, rfl, hWord⟩⟩ := derives_head h
  · rfl
  · simp [isDangling, isCombinator_eq_isConnective, hWord]

theorem endsChain_of_not_word (h : ∀ w vs, ls ≠ .word w :: vs) : EndsChain ls := by
  rintro l hHead
  cases ls with
  | nil => cases hHead
  | cons l vs =>
    cases hHead
    cases l with
    | word w => exact absurd rfl (h w vs)
    | _ => rfl

theorem endsChain_word_iff {w : List Char} {next : List Lexeme} :
    EndsChain (.word w :: next) ↔ Combinator.ofWord? w = none := by
  simp [EndsChain, ← isSome_combinator]

/-- A combinator that is not left over takes a term and a chain goes on behind it. -/
theorem exists_tail_of_ofWord? {w : List Char} {next : List Lexeme} {op : Combinator}
    (hWord : Combinator.ofWord? w = some op) :
    (∃ us, .word w :: next = us ++ rest ∧ Tail e us ts ∧ EndsChain rest) ↔
      ∃ t us vs more, next = us ++ (vs ++ rest) ∧ (grammar e).Derives .term us t.formula ∧
        Tail e vs more ∧ ts = (op, t) :: more ∧ EndsChain rest := by
  constructor
  · rintro ⟨us, hCut, hTail, hEnd⟩
    cases hTail with
    | nil =>
      rw [List.nil_append] at hCut
      rw [← hCut, endsChain_word_iff] at hEnd
      cases hWord.symm.trans hEnd
    | cons hSpells hTerm hTail =>
      cases hCut
      cases hWord.symm.trans (combinator_eq_some_iff.mpr hSpells)
      exact ⟨_, _, _, _, List.append_assoc .., hTerm, hTail, rfl, hEnd⟩
  · rintro ⟨t, us, vs, more, rfl, hTerm, hTail, rfl, hEnd⟩
    exact ⟨.word w :: us ++ vs, by simp, .cons (combinator_eq_some_iff.mp hWord) hTerm hTail, hEnd⟩

def TermExact (e : Entity) (ls : List Lexeme) : Prop := ∀ t rest,
  Leaves (term e ls) t rest ↔ ∃ us, ls = us ++ rest ∧ (grammar e).Derives .term us t.formula

def TailExact (e : Entity) (ls : List Lexeme) : Prop := ∀ ts rest,
  Leaves (moreTerms e ls) ts rest ↔ ∃ us, ls = us ++ rest ∧ Tail e us ts ∧ EndsChain rest

def ChainExact (e : Entity) (ls : List Lexeme) : Prop := ∀ f rest,
  Leaves (chain e ls) f rest ↔
    ∃ us, ls = us ++ rest ∧ (grammar e).Derives .expression us f.formula ∧ EndsChain rest

theorem chainExact (hTermExact : TermExact e ls)
    (hTailExact : ∀ mid : Shorter ls, TailExact e mid) : ChainExact e ls := by
  intro f rest
  rw [chain]
  simp only [leaves_bind]
  constructor
  · rintro ⟨⟨t, mid, hMid⟩, hTerm, ⟨ts, left, hLeft⟩, hMore, hRest⟩
    rw [leaves_ok] at hRest
    obtain ⟨rfl, rfl⟩ := hRest
    obtain ⟨us, rfl, hFirst⟩ := (hTermExact t mid).mp ⟨hMid, hTerm⟩
    obtain ⟨vs, rfl, hTail, hEnd⟩ := (hTailExact ⟨mid, hMid⟩ ts left).mp ⟨hLeft, hMore⟩
    refine ⟨us ++ vs, by simp, ?_, hEnd⟩
    exact derives_expression_iff.mpr ⟨t, ts, us, vs, rfl, hFirst, hTail, rfl⟩
  · rintro ⟨us, rfl, hExpression, hEnd⟩
    obtain ⟨t, ts, vs, ws, rfl, hFirst, hTail, rfl⟩ := derives_expression_iff.mp hExpression
    obtain ⟨hMid, hTerm⟩ := (hTermExact t _).mpr ⟨vs, List.append_assoc .., hFirst⟩
    obtain ⟨hLeft, hMore⟩ := (hTailExact ⟨_, hMid⟩ ts rest).mpr ⟨ws, rfl, hTail, hEnd⟩
    exact ⟨_, hTerm, _, hMore, leaves_ok.mpr ⟨rfl, rfl⟩⟩

theorem tailExact (hTermExact : ∀ mid : Shorter ls, TermExact e mid)
    (hTailExact : ∀ mid : Shorter ls, TailExact e mid) : TailExact e ls := by
  intro ts rest
  rw [moreTerms.eq_def]
  split
  · next w next =>
    have hNext : next.length < (Lexeme.word w :: next).length := by simp
    split
    · next hWord =>
      rw [leaves_ok]
      constructor
      · rintro ⟨rfl, rfl⟩
        exact ⟨[], rfl, .nil, endsChain_word_iff.mpr hWord⟩
      · rintro ⟨us, hCut, hTail, -⟩
        cases hTail with
        | nil => exact ⟨rfl, hCut⟩
        | cons hSpells =>
          cases hCut
          exact absurd (combinator_eq_some_iff.mpr hSpells) (by simp [hWord])
    · next op hWord =>
      rw [exists_tail_of_ofWord? hWord]
      split
      · next hDangling =>
        refine iff_of_false not_leaves_error ?_
        rintro ⟨t, us, vs, more, rfl, hTerm, -⟩
        simp [not_isDangling hTerm] at hDangling
      · simp only [leaves_bind]
        constructor
        · rintro ⟨⟨t, mid, hMid⟩, hTerm, ⟨ts, left, hLeft⟩, hMore, hRest⟩
          rw [leaves_ok] at hRest
          obtain ⟨rfl, rfl⟩ := hRest
          obtain ⟨us, rfl, hDerives⟩ := (hTermExact ⟨next, hNext⟩ t mid).mp ⟨hMid, hTerm⟩
          obtain ⟨vs, rfl, hTail, hEnd⟩ :=
            (hTailExact ⟨mid, Nat.lt_trans hMid hNext⟩ ts left).mp ⟨hLeft, hMore⟩
          exact ⟨t, us, vs, ts, rfl, hDerives, hTail, rfl, hEnd⟩
        · rintro ⟨t, us, vs, more, rfl, hDerives, hTail, rfl, hEnd⟩
          obtain ⟨hMid, hTerm⟩ := (hTermExact ⟨_, hNext⟩ t _).mpr ⟨us, rfl, hDerives⟩
          obtain ⟨hLeft, hMore⟩ :=
            (hTailExact ⟨_, Nat.lt_trans hMid hNext⟩ more rest).mpr ⟨vs, rfl, hTail, hEnd⟩
          exact ⟨_, hTerm, _, hMore, leaves_ok.mpr ⟨rfl, rfl⟩⟩
  · next hWord =>
    rw [leaves_ok]
    constructor
    · rintro ⟨rfl, rfl⟩
      exact ⟨[], rfl, .nil, endsChain_of_not_word hWord⟩
    · rintro ⟨us, hCut, hTail, -⟩
      cases hTail with
      | nil => exact ⟨rfl, hCut⟩
      | cons hSpells =>
        obtain ⟨w, rfl, -⟩ := spells_iff.mp hSpells
        exact absurd hCut (hWord w _)

theorem termExact (hChainExact : ∀ mid : Shorter ls, ChainExact e mid) : TermExact e ls := by
  intro t rest
  rw [term.eq_def]
  split
  · refine iff_of_false not_leaves_error ?_
    rintro ⟨us, hCut, hTerm⟩
    obtain ⟨l, vs, rfl, -⟩ := derives_head hTerm
    cases hCut
  · rw [exists_term_opening_iff]
    refine iff_of_false not_leaves_error ?_
    rintro ⟨vs, inner, hCut, -, hInner⟩
    cases vs with
    | nil =>
      obtain ⟨l, vs, hCons, -⟩ := derives_head hInner
      cases hCons
    | cons l vs =>
      cases hCut
      exact not_derives_closing hInner
  · next next hEmpty =>
    have hExact := hChainExact ⟨next, by simp⟩
    rw [exists_term_opening_iff]
    -- Whatever the content derives, its reader succeeds and leaves the closing parenthesis.
    have hContent (vs : List Lexeme) (inner : Filter) (hCut : next = vs ++ .closing :: rest)
        (hInner : (grammar e).Derives .expression vs inner.formula) :
        ∃ h, chain e next = .ok (inner, ⟨.closing :: rest, h⟩) :=
      (hExact inner _).mpr ⟨vs, hCut, hInner, endsChain_of_not_word (by simp)⟩
    split
    · next hChain =>
      refine iff_of_false not_leaves_error ?_
      rintro ⟨vs, inner, hCut, -, hInner⟩
      obtain ⟨h, hOk⟩ := hContent vs inner hCut hInner
      cases hChain.symm.trans hOk
    · next hChain =>
      refine iff_of_false not_leaves_error ?_
      rintro ⟨vs, inner, hCut, -, hInner⟩
      obtain ⟨h, hOk⟩ := hContent vs inner hCut hInner
      cases hChain.symm.trans hOk
    · next inner left h hChain =>
      rw [leaves_ok]
      constructor
      · rintro ⟨rfl, rfl⟩
        obtain ⟨vs, hCut, hInner, -⟩ := (hExact inner _).mp ⟨h, hChain⟩
        exact ⟨vs, inner, hCut, rfl, hInner⟩
      · rintro ⟨vs, inner, hCut, rfl, hInner⟩
        obtain ⟨h, hOk⟩ := hContent vs inner hCut hInner
        cases hChain.symm.trans hOk
        exact ⟨rfl, rfl⟩
    · next hClosing hChain =>
      refine iff_of_false not_leaves_error ?_
      rintro ⟨vs, inner, hCut, -, hInner⟩
      obtain ⟨h, hOk⟩ := hContent vs inner hCut hInner
      cases hChain.symm.trans hOk
      exact hClosing rfl
  · next w next =>
    rw [exists_term_word_iff, isSome_combinator]
    split
    · next hWord => exact iff_of_false not_leaves_error (by simp [hWord])
    · next hWord =>
      rw [Bool.not_eq_true] at hWord
      rw [leaves_then (f := Filter.condition) (by exact fun _ left h => ⟨by simp; omega, rfl⟩)]
      simp only [leaves_conditionOn hWord]
      constructor
      · rintro ⟨c, ⟨us, rfl, hWritten⟩, rfl⟩
        exact ⟨hWord, us, c, rfl, rfl, hWritten⟩
      · rintro ⟨-, vs, c, rfl, rfl, hWritten⟩
        exact ⟨c, ⟨vs, rfl, hWritten⟩, rfl⟩
  · refine iff_of_false not_leaves_error ?_
    rintro ⟨us, hCut, hTerm⟩
    obtain ⟨l, vs, rfl, rfl | ⟨w, rfl, -⟩⟩ := derives_head hTerm <;> cases hCut
  · next hOpening hWord hQuoted =>
    refine iff_of_false not_leaves_error ?_
    rintro ⟨us, hCut, hTerm⟩
    obtain ⟨l, vs, rfl, rfl | ⟨w, rfl, -⟩⟩ := derives_head hTerm
    · cases hCut
      exact hOpening rfl
    · cases hCut
      exact hWord _ rfl

theorem readers_exact (e : Entity) (ls : List Lexeme) :
    TermExact e ls ∧ TailExact e ls ∧ ChainExact e ls := by
  induction hLength : ls.length using Nat.strongRecOn generalizing ls with
  | ind n ih =>
    subst hLength
    have hTerm : TermExact e ls := termExact fun mid => (ih _ mid.property mid rfl).2.2
    have hTail (mid : Shorter ls) : TailExact e mid := (ih _ mid.property mid rfl).2.1
    exact ⟨hTerm, tailExact (fun mid => (ih _ mid.property mid rfl).1) hTail,
      chainExact hTerm hTail⟩

end TableGateway.Filter
