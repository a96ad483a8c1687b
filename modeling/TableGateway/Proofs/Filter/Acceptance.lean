import TableGateway.Proofs.Filter.Lexemes
import TableGateway.Proofs.Filter.Reader
import TableGateway.Proofs.Filter.Shape

/-!
# Which filters are accepted

A text is a filter exactly when it is not blank, splits into lexemes, keeps the bounds of the shape
check and is derived by the grammar. The tree is the one of the derivation.
-/

namespace TableGateway.Filter

variable {e : Entity} {ls : List Lexeme} {f : Filter}

theorem ofLexemes_eq_ok_iff :
    ofLexemes e ls = .ok f ↔ (grammar e).Derives .expression ls f.formula := by
  have hExact : ∀ f rest, Leaves (chain e ls) f rest ↔ _ := (readers_exact e ls).2.2
  rw [ofLexemes, Outcome.bind_eq_ok_iff]
  constructor
  · rintro ⟨⟨g, rest, hRest⟩, hChain, hEnd⟩
    obtain ⟨us, rfl, hDerives, -⟩ := (hExact g rest).mp ⟨hRest, hChain⟩
    cases rest with
    | nil =>
      cases hEnd
      simpa using hDerives
    | cons l rest => cases hEnd
  · intro hDerives
    obtain ⟨hRest, hChain⟩ := (hExact f []).mpr ⟨ls, by simp, hDerives, by simp [EndsChain]⟩
    exact ⟨_, hChain, rfl⟩

theorem checkShape_eq_ok_iff_of_balanced (h : (grammar e).Balanced ls) :
    Lexeme.checkShape ls = .ok () ↔
      Lexeme.NestsWithin 64 ls ∧ ls.countP Lexeme.isConnective ≤ 255 := by
  have hLevel (us : List Lexeme) : Lexeme.openings us = (grammar e).level us := rfl
  rw [Lexeme.checkShape_eq_ok_iff, hLevel, and_iff_left h.level_eq]
  constructor
  · intro hPasses
    constructor
    · intro before after hCut
      have hDepth := (hPasses before after hCut).2.1
      simp only [Lexeme.openings, maxFilterDepth] at hDepth
      omega
    · have hFew := (hPasses ls [] (by simp)).2.2
      simp only [maxFilterConditions] at hFew
      omega
  · rintro ⟨hNests, hFew⟩ before after hCut
    have hNonneg := h.nonneg hCut
    have hDepth := hNests before after hCut
    have hSome : before.countP Lexeme.isConnective ≤ ls.countP Lexeme.isConnective :=
      (hCut ▸ List.sublist_append_left before after).countP_le
    refine ⟨?_, ?_, ?_⟩
    · rw [hLevel]
      simpa using hNonneg
    · simp only [Lexeme.openings, maxFilterDepth]
      omega
    · simp only [maxFilterConditions]
      omega

theorem compile_eq_ok_iff_derives {raw : String} :
    compile e raw = .ok f ↔
      Text.isBlankText raw = false ∧ ∃ ls, Lexeme.lex raw.toList = .ok ls ∧
        Lexeme.checkShape ls = .ok () ∧ (grammar e).Derives .expression ls f.formula := by
  rw [compile]
  split
  · next h => simp [h]
  · next h =>
    rw [and_iff_right (by simpa using h)]
    split
    · next content hLex => simp [hLex]
    · next ls hLex =>
      rw [Outcome.bind_eq_ok_iff]
      constructor
      · rintro ⟨⟨⟩, hShape, hRead⟩
        exact ⟨ls, hLex, hShape, ofLexemes_eq_ok_iff.mp hRead⟩
      · rintro ⟨ms, hMs, hShape, hDerives⟩
        cases hLex.symm.trans hMs
        exact ⟨(), hShape, ofLexemes_eq_ok_iff.mpr hDerives⟩

/-- The compiler accepts the grammar and gives its tree. -/
theorem compile_eq_ok_iff (e : Entity) (raw : String) (f : Filter) :
    compile e raw = .ok f ↔
      (∃ c ∈ raw.toList, Text.isBlank c = false) ∧
        ∃ ls, Lexeme.Cuts raw.toList ls ∧ Lexeme.NestsWithin 64 ls ∧
          ls.countP Lexeme.isConnective ≤ 255 ∧ (grammar e).Derives .expression ls f.formula := by
  rw [compile_eq_ok_iff_derives]
  refine and_congr (by simp [Text.isBlankText]) (exists_congr fun ls => ?_)
  rw [Lexeme.lex_eq_ok_iff, ← and_assoc (a := Lexeme.NestsWithin 64 ls)]
  refine and_congr_right fun _ => and_congr_left fun hDerives => ?_
  exact checkShape_eq_ok_iff_of_balanced (hDerives.balanced (grammar_lawful e))

/-- The conditions of a filter are written in its text one behind the other. -/
theorem conditions_occur {raw : String} (h : compile e raw = .ok f) :
    ∃ (ls : List Lexeme) (pieces : List (List Lexeme × Condition)), Lexeme.Cuts raw.toList ls ∧
      Grammar.Occur (pieces.map Prod.fst) ls ∧ (∀ p ∈ pieces, Written e p.1 p.2) ∧
      f.conditions = pieces.map Prod.snd := by
  obtain ⟨-, ls, hLex, -, hDerives⟩ := compile_eq_ok_iff_derives.mp h
  obtain ⟨pieces, hAtoms, hWritten, hOccur⟩ := hDerives.atoms_occur
  exact ⟨ls, pieces, Lexeme.lex_eq_ok_iff.mp hLex, hOccur, hWritten,
    (conditions_eq_atoms f).trans hAtoms⟩

/-- Two columns of text, the first of which is the key. -/
def sampleEntity : Entity where
  name := "items"
  schema := ""
  readOnly := false
  columns :=
    [{ name := "Code", type := .text, primaryKey := true }, { name := "Name", type := .text }]

/-- A filter with a group, a keyword in quotes and words in any case. -/
def sampleFilter : Filter :=
  .combined
    (.group
      (.combined (.condition ⟨"t_items", "Name", .text, .eq, .single (.text "x")⟩) .or
        (.condition ⟨"t_items", "Code", .text, .eq, .single .null⟩)))
    .and (.condition ⟨"t_items", "Name", .text, .contains, .single (.text "and")⟩)

theorem cuts_sampleFilter :
    Lexeme.Cuts "(name EQ x Or code eq Null) AND name ct 'and'".toList
      [.opening, .word "name".toList, .word "EQ".toList, .word "x".toList, .word "Or".toList,
        .word "code".toList, .word "eq".toList, .word "Null".toList, .closing,
        .word "AND".toList, .word "name".toList, .word "ct".toList, .quoted "and".toList] := by
  have hBlank {cs : List Char} {ls : List Lexeme} (h : Lexeme.Cuts cs ls) :
      Lexeme.Cuts (' ' :: cs) ls :=
    .blank rfl h
  refine .opening ?_
  refine .bareWord "name" (by decide) (by decide) rfl (hBlank ?_)
  refine .bareWord "EQ" (by decide) (by decide) rfl (hBlank ?_)
  refine .bareWord "x" (by decide) (by decide) rfl (hBlank ?_)
  refine .bareWord "Or" (by decide) (by decide) rfl (hBlank ?_)
  refine .bareWord "code" (by decide) (by decide) rfl (hBlank ?_)
  refine .bareWord "eq" (by decide) (by decide) rfl (hBlank ?_)
  refine .bareWord "Null" (by decide) (by decide) rfl (.closing (hBlank ?_))
  refine .bareWord "AND" (by decide) (by decide) rfl (hBlank ?_)
  refine .bareWord "name" (by decide) (by decide) rfl (hBlank ?_)
  refine .bareWord "ct" (by decide) (by decide) rfl (hBlank ?_)
  exact .quoted (s := "and".toList) nofun .nil

theorem compile_sampleFilter :
    compile sampleEntity "(name EQ x Or code eq Null) AND name ct 'and'" = .ok sampleFilter := by
  have hName : Written sampleEntity [.word "name".toList, .word "EQ".toList, .word "x".toList]
      ⟨"t_items", "Name", .text, .eq, .single (.text "x")⟩ :=
    .mk (c := { name := "Name", type := .text }) rfl rfl rfl
      (.word nofun rfl rfl (.typed nofun nofun rfl))
  have hCode : Written sampleEntity [.word "code".toList, .word "eq".toList, .word "Null".toList]
      ⟨"t_items", "Code", .text, .eq, .single .null⟩ :=
    .mk (c := { name := "Code", type := .text, primaryKey := true }) rfl rfl rfl
      (.null (.inl rfl) rfl)
  have hText : Written sampleEntity [.word "name".toList, .word "ct".toList, .quoted "and".toList]
      ⟨"t_items", "Name", .text, .contains, .single (.text "and")⟩ :=
    .mk (c := { name := "Name", type := .text }) rfl rfl rfl (.quoted nofun (.pattern (.inl rfl)))
  have hOr := Grammar.Derives.or (G := grammar sampleEntity) (t := .word "Or".toList)
    (.alternative (.single (.atom hName))) rfl (.single (.atom hCode))
  have hAnd := Grammar.Derives.and (G := grammar sampleEntity) (t := .word "AND".toList)
    (.single (.group hOr)) rfl (.atom hText)
  exact compile_eq_ok_iff_derives.mpr
    ⟨by decide, _, Lexeme.lex_of_cuts cuts_sampleFilter, rfl, .alternative hAnd⟩

end TableGateway.Filter
