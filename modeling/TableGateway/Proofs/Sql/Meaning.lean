import TableGateway.Proofs.Filter.Acceptance
import TableGateway.Proofs.Sql.Clause

/-!
# The meaning of rendered filters

The predicate of a statement has no parentheses but those of groups, so the engine finds its tree by
precedence. For the trees of the grammar of filters that is the tree of the filter again.
-/

namespace TableGateway

namespace Token

/-- The tokens that structure a predicate, before it is said what its atoms are. -/
def punctuation : Grammar Token (List Token) where
  opening := .mark '('
  closing := .mark ')'
  spells op t := ∃ w, t = .word w ∧ Combinator.ofWord? w = some op
  atom _ _ := False

/-- Parentheses match, and combinators stand inside of them only. -/
structure IsClosed (ts : List Token) : Prop where
  balanced : punctuation.Balanced ts
  encloses : ∀ op, punctuation.Encloses op ts

/-- A piece of a predicate that the engine takes as one condition. -/
structure IsAtom (ts : List Token) : Prop extends IsClosed ts where
  ne_nil : ts ≠ []
  head : ts.head? ≠ some (.mark '(')

/-- Predicates: parentheses first, `AND` before `OR`, and each of them from left to right. -/
def predicate : Grammar Token (List Token) :=
  { punctuation with atom := fun ts a => a = ts ∧ IsAtom ts }

theorem punctuation_lawful : punctuation.Lawful where
  opening_ne_closing := by decide
  ne_opening := by
    rintro op t ⟨w, rfl, -⟩
    exact nofun
  ne_closing := by
    rintro op t ⟨w, rfl, -⟩
    exact nofun
  atom_balanced h := h.elim

theorem predicate_separates : predicate.Separates where
  opening_ne_closing := punctuation_lawful.opening_ne_closing
  ne_opening h := punctuation_lawful.ne_opening h
  ne_closing h := punctuation_lawful.ne_closing h
  atom_balanced h := ⟨h.2.balanced.level_eq, h.2.balanced.nonneg⟩
  spells_unique := by
    rintro op op' t ⟨w, rfl, h⟩ ⟨w', hEq, h'⟩
    cases hEq
    exact Option.some.inj (h.symm.trans h')
  atom_unique h h' := h.1.trans h'.1.symm
  atom_head h := h.2.head
  atom_encloses h op := h.2.encloses op

/-- Neither a parenthesis nor a combinator. -/
def isPlain : Token → Bool
  | .mark c => c ≠ '(' && c ≠ ')'
  | .word w => (Combinator.ofWord? w).isNone
  | _ => true

theorem isClosed_of_isPlain {ts : List Token} (h : ∀ t ∈ ts, t.isPlain = true) : IsClosed ts where
  balanced := by
    refine .of_forall fun t ht => ⟨?_, ?_⟩
    · rintro rfl
      simpa [isPlain, punctuation] using h _ ht
    · rintro rfl
      simpa [isPlain, punctuation] using h _ ht
  encloses op := by
    rintro us t vs rfl ⟨w, rfl, hWord⟩
    have hPlain : (Combinator.ofWord? w).isNone = true := h (.word w) (by simp)
    simp [hWord] at hPlain

theorem IsClosed.append {ts us : List Token} (hLeft : IsClosed ts) (hRight : IsClosed us) :
    IsClosed (ts ++ us) where
  balanced := hLeft.balanced.append hRight.balanced
  encloses op := by
    intro vs t ws hCut hSpells
    rcases List.append_eq_append_iff.mp hCut with ⟨as, rfl, hAs⟩ | ⟨bs, hTs, hBs⟩
    · rw [Grammar.level_append, hLeft.balanced.level_eq, Int.zero_add]
      exact hRight.encloses op as t ws hAs hSpells
    · cases bs with
      | nil =>
        rw [List.append_nil] at hTs
        exact absurd (Grammar.level_nil _) (hRight.encloses op [] t ws hBs.symm hSpells)
      | cons b bs =>
        cases hBs
        exact hLeft.encloses op vs t bs hTs hSpells

theorem IsClosed.group {ts : List Token} (h : IsClosed ts) :
    IsClosed (.mark '(' :: ts ++ [.mark ')']) where
  balanced := h.balanced.group punctuation_lawful.opening_ne_closing
  encloses op := punctuation_lawful.encloses_group h.balanced op

end Token

namespace Filter

variable {d : Dialect} {ps : Parameters}

/-- The tree of a filter, each condition with the tokens it is written by. -/
def rendered (d : Dialect) (ps : Parameters) : Filter → Formula (Condition × List Token)
  | .condition c => .atom (c, d.tokens (Draft.write d ps (d.condition c)))
  | .combined left op right =>
    .combined (left.rendered d ps) op (right.rendered d (Draft.bind ps (d.filter left)))
  | .group inner => .group (inner.rendered d ps)

theorem map_fst_rendered (ps : Parameters) (f : Filter) :
    (f.rendered d ps).map Prod.fst = f.formula := by
  induction f generalizing ps with
  | condition c => rfl
  | combined left op right ihLeft ihRight => simp [rendered, Formula.map, formula, ihLeft, ihRight]
  | group inner ih => simp [rendered, Formula.map, formula, ih]

end Filter

namespace Part

/-- Neither a parenthesis nor a combinator, nor a number. -/
def isPlain : Part → Bool
  | .keyword k => k ≠ .AND && k ≠ .OR
  | .mark m => m ≠ .opening && m ≠ .closing
  | .number _ => false
  | _ => true

theorem isPlain_castTokens (d : Dialect) (type : Option DataType) :
    ∀ t ∈ castTokens d type, t.isPlain = true := by
  cases type with
  | none => cases d <;> simp [castTokens]
  | some type => cases d <;> cases type <;> decide

theorem isPlain_tokens {d : Dialect} (ps : Parameters) {p : Part} (h : p.isPlain = true) :
    ∀ t ∈ p.tokens d ps, t.isPlain = true := by
  cases p with
  | keyword k =>
    rw [tokens, List.forall_mem_singleton]
    cases k with
    | AND | OR => cases h
    | _ => decide
  | mark m =>
    cases m with
    | opening | closing => cases h
    | _ => simp [tokens, Mark.text, Token.isPlain]
  | relation op => cases op <;> simp [tokens, relationText, Comparison.symbol?, Token.isPlain]
  | name s => simp [tokens, Token.isPlain]
  | number n => cases h
  | value hint v type =>
    exact List.forall_mem_cons.mpr ⟨rfl, isPlain_castTokens d type⟩

end Part

namespace Draft

variable {d : Dialect} {ps : Parameters} {a : Draft}

theorem isPlain_tokens (ps : Parameters) (h : ∀ p ∈ a, p.isPlain = true) :
    ∀ t ∈ a.tokens d ps, t.isPlain = true := by
  induction a generalizing ps with
  | nil => simp [tokens]
  | cons p rest ih =>
    rw [List.forall_mem_cons] at h
    rw [tokens, List.forall_mem_append]
    exact ⟨p.isPlain_tokens ps h.1, ih _ h.2⟩

/-- What the draft is written by is closed, whatever parameters come before it. -/
def IsClosed (d : Dialect) (a : Draft) : Prop := ∀ ps, Token.IsClosed (a.tokens d ps)

theorem isClosed_of_isPlain (h : ∀ p ∈ a, p.isPlain = true) : IsClosed d a :=
  fun ps => Token.isClosed_of_isPlain (isPlain_tokens ps h)

theorem IsClosed.append {b : Draft} (hLeft : IsClosed d a) (hRight : IsClosed d b) :
    IsClosed d (a ++ b) := by
  intro ps
  rw [tokens_append]
  exact (hLeft ps).append (hRight _)

theorem IsClosed.enclosed (h : IsClosed d a) : IsClosed d (enclosed a) := by
  intro ps
  rw [tokens_enclosed]
  exact (h ps).group

theorem IsClosed.isAtom {p : Part} (ps : Parameters) (h : IsClosed d (p :: a))
    (hHead : (∃ s, p = .name s) ∨ ∃ k, p = .keyword k) :
    Token.IsAtom (Draft.tokens d ps (p :: a)) := by
  refine { h ps with ne_nil := ?_, head := ?_ } <;>
    rcases hHead with ⟨s, rfl⟩ | ⟨k, rfl⟩ <;> simp [tokens, Part.tokens]

end Draft

namespace Dialect

open Draft

variable {d : Dialect} {ps : Parameters}

theorem isAtom_of_isPlain {s : String} {a : Draft} (h : ∀ p ∈ a, p.isPlain = true) :
    Token.IsAtom (Draft.tokens d ps (.name s :: a)) :=
  (isClosed_of_isPlain (List.forall_mem_cons.mpr ⟨rfl, h⟩)).isAtom ps (.inl ⟨s, rfl⟩)

theorem isAtom_relation (c : Condition) (v : BoundValue) :
    Token.IsAtom ((relation c v).tokens d ps) :=
  isAtom_of_isPlain (by simp [Part.isPlain])

theorem isAtom_list (c : Condition) (vs : List BoundValue) :
    Token.IsAtom ((spaced [columnOf c.aliasName c.column, [.keyword .IN],
      enclosed (listed (vs.map fun v => [Part.value c.column v (some c.type)]))]).tokens d ps) := by
  have hFront : IsClosed d
      (columnOf c.aliasName c.column ++ [.mark .space, .keyword .IN, .mark .space]) :=
    isClosed_of_isPlain (by simp [columnOf, Part.isPlain])
  have hItems : IsClosed d (listed (vs.map fun v => [Part.value c.column v (some c.type)])) :=
    isClosed_of_isPlain (forall_mem_intercalate (by simp [Part.isPlain]) (by simp [Part.isPlain]))
  rw [spaced, List.intercalate_cons_cons, List.intercalate_cons_cons, List.intercalate_singleton]
  simpa [columnOf] using (hFront.append hItems.enclosed).isAtom ps (.inl ⟨_, rfl⟩)

theorem isAtom_lowered (c : Condition) (v : BoundValue) (type : Option DataType) :
    Token.IsAtom (Draft.tokens d ps ([.keyword .LOWER] ++
      (enclosed (columnOf c.aliasName c.column) ++
        ([.mark .space, .keyword .LIKE, .mark .space, .keyword .LOWER] ++
          enclosed [.value c.column v type])))) := by
  have hLower : IsClosed d [.keyword .LOWER] := isClosed_of_isPlain (by simp [Part.isPlain])
  have hColumn : IsClosed d (columnOf c.aliasName c.column) :=
    isClosed_of_isPlain (by simp [columnOf, Part.isPlain])
  have hLike : IsClosed d [.mark .space, .keyword .LIKE, .mark .space, .keyword .LOWER] :=
    isClosed_of_isPlain (by simp [Part.isPlain])
  have hValue : IsClosed d [.value c.column v type] := isClosed_of_isPlain (by simp [Part.isPlain])
  exact (hLower.append (hColumn.enclosed.append (hLike.append hValue.enclosed))).isAtom ps
    (.inr ⟨_, rfl⟩)

theorem isAtom_patternCondition (c : Condition) (v : BoundValue) :
    Token.IsAtom ((d.patternCondition c v).tokens d ps) := by
  cases d with
  | postgres =>
    rw [patternCondition, matchForm, List.nil_append, columnOf, List.cons_append, List.cons_append]
    by_cases hText : c.type = .text
    · exact isAtom_of_isPlain (by simp [hText, Part.isPlain])
    · exact isAtom_of_isPlain (by simp [hText, Part.isPlain])
  | sqlite => exact isAtom_of_isPlain (by simp [matchForm, Part.isPlain])
  | mysql | sqlServer => exact isAtom_lowered c _ _

theorem isAtom_condition (d : Dialect) (ps : Parameters) (c : Condition) :
    Token.IsAtom ((d.condition c).tokens d ps) := by
  rw [condition]
  split
  · exact isAtom_of_isPlain (by simp [words, spaced, Part.isPlain])
  · exact isAtom_of_isPlain (by simp [words, spaced, Part.isPlain])
  · exact isAtom_list c _
  · exact isAtom_patternCondition c _
  · exact isAtom_patternCondition c _
  · exact isAtom_relation c _
  · exact isAtom_relation c _

theorem tokens_combined (ps : Parameters) (f g : Filter) (op : Combinator) :
    (d.filter (.combined f op g)).tokens d ps =
      (d.filter f).tokens d ps ++ .word (combinator op).text.toList ::
        (d.filter g).tokens d (bind ps (d.filter f)) := by
  rw [filter, spaced, List.intercalate_cons_cons, List.intercalate_cons_cons,
    List.intercalate_singleton, List.append_assoc, tokens_append]
  rfl

theorem spells_combinator (op : Combinator) :
    Token.predicate.spells op (.word (combinator op).text.toList) :=
  ⟨_, rfl, by cases op <;> decide⟩

/-- The text of a filter is derived by the grammar of predicates as its tree is by that of
filters. -/
theorem derives_rendered {e : Entity} {r : Rank} {ls : List Lexeme} {f : Filter}
    (h : (Filter.grammar e).Derives r ls f.formula) (ps : Parameters) :
    Token.predicate.Derives r ((d.filter f).tokens d ps) ((f.rendered d ps).map Prod.snd) := by
  generalize hF : f.formula = F at h
  induction h generalizing f ps with
  | atom =>
    cases Filter.formula_eq_atom_iff.mp hF
    rw [Filter.rendered, tokens_write ps (legible_condition _)]
    exact .atom ⟨rfl, isAtom_condition d ps _⟩
  | group _ ih =>
    obtain ⟨inner, rfl, rfl⟩ := Filter.formula_eq_group_iff.mp hF
    rw [filter, tokens_enclosed]
    exact .group (ih ps rfl)
  | single _ ih => exact .single (ih ps hF)
  | alternative _ ih => exact .alternative (ih ps hF)
  | and _ _ _ ihLeft ihRight =>
    obtain ⟨g, h, rfl, rfl, rfl⟩ := Filter.formula_eq_combined_iff.mp hF
    rw [tokens_combined]
    exact .and (ihLeft ps rfl) (spells_combinator .and) (ihRight _ rfl)
  | or _ _ _ ihLeft ihRight =>
    obtain ⟨g, h, rfl, rfl, rfl⟩ := Filter.formula_eq_combined_iff.mp hF
    rw [tokens_combined]
    exact .or (ihLeft ps rfl) (spells_combinator .or) (ihRight _ rfl)

end Dialect

namespace Filter

/-- Read back by the rules of SQL, the text of a compiled filter has the tree of the filter, groups
included, and no other. So text and filter agree on every row, whatever its conditions are there:
true, false or unknown. -/
theorem reads_back {e : Entity} {raw : String} {f : Filter} (h : compile e raw = .ok f)
    (d : Dialect) (ps : Parameters) :
    (f.rendered d ps).map Prod.fst = f.formula ∧
      (∀ T, Token.predicate.Derives .expression (d.tokens (Draft.write d ps (d.filter f))) T ↔
        T = (f.rendered d ps).map Prod.snd) ∧
      ∀ v, ((f.rendered d ps).map Prod.snd).truth v = f.formula.truth v := by
  obtain ⟨-, ls, -, -, hDerives⟩ := compile_eq_ok_iff_derives.mp h
  have hText : Token.predicate.Derives .expression (d.tokens (Draft.write d ps (d.filter f)))
      ((f.rendered d ps).map Prod.snd) := by
    rw [Draft.tokens_write ps (Dialect.legible_filter f)]
    exact Dialect.derives_rendered hDerives ps
  refine ⟨map_fst_rendered ps f, fun T => ⟨fun hT => ?_, fun hT => hT ▸ hText⟩, fun v => ?_⟩
  · exact hT.unique Token.predicate_separates hText
  · rw [← map_fst_rendered (d := d) ps f, Formula.truth_map, Formula.truth_map]

theorem sampleFilter_reads_back :
    compile sampleEntity "(name EQ x Or code eq Null) AND name ct 'and'" = .ok sampleFilter ∧
      ∀ T, Token.predicate.Derives .expression
          (Dialect.mysql.tokens (Draft.write .mysql {} (Dialect.mysql.filter sampleFilter))) T ↔
        T = (sampleFilter.rendered .mysql {}).map Prod.snd :=
  ⟨compile_sampleFilter, (reads_back compile_sampleFilter .mysql {}).2.1⟩

end Filter

end TableGateway
