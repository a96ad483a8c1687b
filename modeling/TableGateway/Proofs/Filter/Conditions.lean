import TableGateway.Proofs.Filter.Grammar
import TableGateway.Proofs.Outcome
import TableGateway.Query.Filter.Parser

/-!
# The readers of conditions

Each reader takes exactly what the grammar allows at its place and leaves the rest. Nothing behind
a condition decides where it ends.
-/

namespace TableGateway.Filter

/-- The reader succeeds with `a` and leaves `rest`. -/
def Leaves {α : Type} {P : List Lexeme → Prop} (x : Except QueryError (α × {rest // P rest}))
    (a : α) (rest : List Lexeme) : Prop :=
  ∃ h, x = .ok (a, ⟨rest, h⟩)

section Leaves

variable {α β : Type} {P Q : List Lexeme → Prop} {x : Except QueryError (α × {rest // P rest})}
  {rest : List Lexeme}

theorem not_leaves_error {e : QueryError} {a : α} :
    ¬ Leaves (.error e : Except QueryError (α × {rest // P rest})) a rest := by
  rintro ⟨h, hEq⟩
  cases hEq

theorem leaves_ok {a b : α} {r : {rest // P rest}} :
    Leaves (.ok (a, r) : Except QueryError (α × {rest // P rest})) b rest ↔
      a = b ∧ r.val = rest := by
  constructor
  · rintro ⟨h, hEq⟩
    cases hEq
    exact ⟨rfl, rfl⟩
  · rintro ⟨rfl, rfl⟩
    exact ⟨r.property, rfl⟩

theorem leaves_bind {γ : Type} {y : Except QueryError γ}
    {k : γ → Except QueryError (α × {rest // P rest})} {a : α} :
    Leaves (y >>= k) a rest ↔ ∃ c, y = .ok c ∧ Leaves (k c) a rest := by
  constructor
  · rintro ⟨h, hEq⟩
    obtain ⟨c, hY, hK⟩ := Outcome.bind_eq_ok_iff.mp hEq
    exact ⟨c, hY, h, hK⟩
  · rintro ⟨c, hY, h, hK⟩
    exact ⟨h, Outcome.bind_eq_ok_iff.mpr ⟨c, hY, hK⟩⟩

theorem leaves_then {k : α × {rest // P rest} → Except QueryError (β × {rest // Q rest})}
    {f : α → β} {b : β} (hK : ∀ a left h, ∃ h', k (a, ⟨left, h⟩) = .ok (f a, ⟨left, h'⟩)) :
    Leaves (x >>= k) b rest ↔ ∃ a, Leaves x a rest ∧ f a = b := by
  rw [leaves_bind]
  constructor
  · rintro ⟨⟨a, left, h⟩, hX, hRest⟩
    obtain ⟨h', hEq⟩ := hK a left h
    rw [hEq, leaves_ok] at hRest
    obtain ⟨hB, rfl⟩ := hRest
    exact ⟨a, ⟨h, hX⟩, hB⟩
  · rintro ⟨a, ⟨h, hX⟩, hB⟩
    obtain ⟨h', hEq⟩ := hK a rest h
    exact ⟨_, hX, by rw [hEq, leaves_ok]; exact ⟨hB, rfl⟩⟩

theorem leaves_map {y : Except QueryError γ} {f : γ → α × {rest // P rest}} {a : α} :
    Leaves (y.map f) a rest ↔ ∃ c, y = .ok c ∧ (f c).1 = a ∧ (f c).2.val = rest := by
  cases y with
  | error e => simpa [Except.map] using not_leaves_error
  | ok c => simpa [Except.map] using leaves_ok

end Leaves

variable {c : Column} {op : Comparison} {ls rest : List Lexeme}

theorem not_isConnective_of_null {l : Lexeme} (h : l.spells "null" = true) :
    l.isConnective = false := by
  obtain ⟨w, rfl, hNull⟩ := spells_iff.mp h
  have hNe : ∀ s, Text.folded "null" ≠ Text.folded s → (Lexeme.word w).spells s = false := by
    intro s hNe
    rw [Bool.eq_false_iff, ne_eq, spells_word_iff, hNull]
    exact hNe
  simp [Lexeme.isConnective, hNe "and" (by decide), hNe "or" (by decide)]

theorem literal_eq_ok_iff {s : List Char} {v : BoundValue} :
    literal c op s = .ok v ↔ Literal c op s v := by
  have hPattern : op.isPattern = true ↔ op = .contains ∨ op = .startsWith := by
    simp [Comparison.isPattern]
  rw [literal]
  split
  · next h =>
    constructor
    · rintro ⟨⟩
      exact .pattern (hPattern.mp h)
    · rintro (_ | ⟨hContains, hStarts, -⟩)
      · rfl
      · exact absurd (hPattern.mp h) (not_or.mpr ⟨hContains, hStarts⟩)
  · next h =>
    obtain ⟨hContains, hStarts⟩ := not_or.mp (fun hOr => h (hPattern.mpr hOr))
    constructor
    · exact .typed hContains hStarts
    · rintro (hOr | ⟨-, -, hText⟩)
      · exact absurd (hPattern.mpr hOr) h
      · exact hText

theorem bareLiteral_eq_ok_iff {w : List Char} {v : BoundValue} :
    bareLiteral c op w = .ok v ↔
      ((Lexeme.word w).spells "null" = true ∧ (op = .eq ∨ op = .ne) ∧ v = .null) ∨
        ((Lexeme.word w).spells "null" = false ∧ Literal c op w v) := by
  have hAllows : op.allowsNull = true ↔ op = .eq ∨ op = .ne := by simp [Comparison.allowsNull]
  rw [bareLiteral, ← literal_eq_ok_iff, ← hAllows]
  change _ ↔ (Text.sameName (String.ofList w) "null" = true ∧ _) ∨
    (Text.sameName (String.ofList w) "null" = false ∧ _)
  split
  · next h =>
    split
    · next hAllowed => simp [h, hAllowed, eq_comm]
    · next hAllowed => simp [h, hAllowed]
  · next h => simp [h]

theorem Value.list_of_within {us : List Lexeme} {v : Operand} (h : Value c .within us v) :
    ∃ vs, v = .list vs := by
  generalize hOp : Comparison.within = op at h
  cases h with
  | list => exact ⟨_, rfl⟩
  | quoted hNe | word hNe => exact absurd hOp.symm hNe
  | null hAllows => simp [← hOp] at hAllows

theorem Value.single_of_ne {us : List Lexeme} {v : Operand} (hOp : op ≠ .within)
    (h : Value c op us v) : ∃ u, v = .single u := by
  cases h with
  | list => exact absurd rfl hOp
  | quoted | null | word => exact ⟨_, rfl⟩

theorem value_single_iff {us : List Lexeme} {v : BoundValue} (hOp : op ≠ .within) :
    Value c op us (.single v) ↔
      (∃ s, us = [.quoted s] ∧ literal c op s = .ok v) ∨
        ∃ w, us = [.word w] ∧ (Lexeme.word w).isConnective = false ∧
          bareLiteral c op w = .ok v := by
  simp only [bareLiteral_eq_ok_iff, literal_eq_ok_iff]
  constructor
  · intro h
    generalize hSingle : Operand.single v = u at h
    cases h with
    | list => cases hSingle
    | quoted _ hLiteral =>
      cases hSingle
      exact .inl ⟨_, rfl, hLiteral⟩
    | null hAllows hNull =>
      cases hSingle
      exact .inr ⟨_, rfl, not_isConnective_of_null hNull, .inl ⟨hNull, hAllows, rfl⟩⟩
    | word _ hWord hOther hLiteral =>
      cases hSingle
      exact .inr ⟨_, rfl, hWord, .inr ⟨hOther, hLiteral⟩⟩
  · rintro (⟨s, rfl, hLiteral⟩ | ⟨w, rfl, hWord, ⟨hNull, hAllows, rfl⟩ | ⟨hOther, hLiteral⟩⟩)
    · exact .quoted hOp hLiteral
    · exact .null hAllows hNull
    · exact .word hOp hWord hOther hLiteral

theorem leaves_singleValue {v : BoundValue} (hOp : op ≠ .within) :
    Leaves (singleValue c op ls) v rest ↔ ∃ us, ls = us ++ rest ∧ Value c op us (.single v) := by
  simp only [value_single_iff hOp]
  rw [singleValue.eq_def]
  split
  · next s after =>
    rw [leaves_map]
    constructor
    · rintro ⟨u, hLiteral, rfl, rfl⟩
      exact ⟨_, rfl, .inl ⟨s, rfl, hLiteral⟩⟩
    · rintro ⟨us, hCut, ⟨s, rfl, hLiteral⟩ | ⟨w, rfl, -⟩⟩
      · cases hCut
        exact ⟨v, hLiteral, rfl, rfl⟩
      · cases hCut
  · next w after =>
    rw [isSome_combinator]
    split
    · next hWord =>
      refine iff_of_false not_leaves_error ?_
      rintro ⟨us, hCut, ⟨s, rfl, -⟩ | ⟨w, rfl, hOther, -⟩⟩
      · cases hCut
      · cases hCut
        exact absurd hWord (by simp [hOther])
    · next hWord =>
      rw [leaves_map]
      constructor
      · rintro ⟨u, hLiteral, rfl, rfl⟩
        exact ⟨_, rfl, .inr ⟨w, rfl, by simpa using hWord, hLiteral⟩⟩
      · rintro ⟨us, hCut, ⟨s, rfl, -⟩ | ⟨w, rfl, -, hLiteral⟩⟩
        · cases hCut
        · cases hCut
          exact ⟨v, hLiteral, rfl, rfl⟩
  · next hQuoted hWord =>
    refine iff_of_false not_leaves_error ?_
    rintro ⟨us, hCut, ⟨s, rfl, -⟩ | ⟨w, rfl, -⟩⟩
    · exact hQuoted _ _ hCut
    · exact hWord _ _ hCut

theorem itemText?_eq_some_iff {l : Lexeme} {s : List Char} :
    itemText? l = some s ↔ l.HasContent s := by
  cases l <;> simp [itemText?, Lexeme.HasContent]

theorem leaves_items_cons {isFirst : Bool} {l : Lexeme} {ls : List Lexeme} {vs : List BoundValue} :
    Leaves (items c isFirst (l :: ls)) vs rest ↔
      ∃ s v, l.HasContent s ∧ BoundValue.ofText c (String.ofList s) = .ok v ∧
        ((ls = .closing :: rest ∧ vs = [v]) ∨
          ∃ after us, ls = .comma :: after ∧ Leaves (items c false after) us rest ∧
            vs = v :: us) := by
  rw [items]
  simp only [← itemText?_eq_some_iff]
  cases hText : itemText? l with
  | none => simp [not_leaves_error]
  | some s =>
    simp only [leaves_bind, Option.some.injEq, exists_and_left, exists_eq_left']
    refine exists_congr fun v => and_congr_right fun _ => ?_
    split
    · simp [not_leaves_error]
    · next after =>
      rw [leaves_ok]
      simp [eq_comm, and_comm]
    · next after =>
      rw [leaves_then (f := (v :: ·)) (by exact fun _ left h => ⟨by simp; omega, rfl⟩)]
      simp [eq_comm, and_comm]
    · next x after hClosing hComma =>
      refine iff_of_false not_leaves_error ?_
      rintro (⟨hCons, -⟩ | ⟨after, hCons, -⟩) <;> cases hCons
      · exact hClosing rfl
      · exact hComma rfl

theorem leaves_items {isFirst : Bool} {ls : List Lexeme} {vs : List BoundValue} :
    Leaves (items c isFirst ls) vs rest ↔ ∃ us, ls = us ++ .closing :: rest ∧ Items c us vs := by
  cases ls with
  | nil =>
    rw [items]
    exact iff_of_false not_leaves_error (by simp)
  | cons l ls =>
    rw [leaves_items_cons]
    constructor
    · rintro ⟨s, v, hContent, hText, ⟨rfl, rfl⟩ | ⟨after, us, rfl, hAfter, rfl⟩⟩
      · exact ⟨[l], rfl, .last hContent hText⟩
      · obtain ⟨ms, rfl, hItems⟩ := leaves_items.mp hAfter
        exact ⟨l :: .comma :: ms, rfl, .cons hContent hText hItems⟩
    · rintro ⟨us, hCut, hItems⟩
      cases hItems with
      | last hContent hText =>
        cases hCut
        exact ⟨_, _, hContent, hText, .inl ⟨rfl, rfl⟩⟩
      | @cons m s v ms us hContent hText hItems =>
        cases hCut
        refine ⟨s, v, hContent, hText, .inr ⟨ms ++ .closing :: rest, us, rfl, ?_, rfl⟩⟩
        exact leaves_items.mpr ⟨ms, rfl, hItems⟩
termination_by ls.length

theorem leaves_listValue {vs : List BoundValue} :
    Leaves (listValue c ls) vs rest ↔ ∃ us, ls = us ++ rest ∧ Value c .within us (.list vs) := by
  rw [listValue.eq_def]
  split
  · next after =>
    rw [leaves_then (f := id) (by exact fun _ left h => ⟨by simp; omega, rfl⟩)]
    simp only [leaves_items, id_eq, exists_eq_right]
    constructor
    · rintro ⟨us, rfl, hItems⟩
      exact ⟨.opening :: us ++ [.closing], by simp, .list hItems⟩
    · rintro ⟨us, hCut, hValue⟩
      cases hValue with
      | list hItems => exact ⟨_, by simpa using hCut, hItems⟩
  · next hOpening =>
    refine iff_of_false not_leaves_error ?_
    rintro ⟨us, hCut, hValue⟩
    cases hValue with
    | list hItems => exact hOpening _ (by simpa using hCut)

theorem leaves_operand {v : Operand} :
    Leaves (operand c op ls) v rest ↔ ∃ us, ls = us ++ rest ∧ Value c op us v := by
  rw [operand]
  split
  · next h =>
    subst h
    rw [leaves_map]
    constructor
    · rintro ⟨⟨vs, left, h⟩, hList, rfl, rfl⟩
      exact leaves_listValue.mp ⟨h, hList⟩
    · rintro ⟨us, hCut, hValue⟩
      obtain ⟨vs, rfl⟩ := hValue.list_of_within
      obtain ⟨h, hList⟩ := leaves_listValue.mpr ⟨us, hCut, hValue⟩
      exact ⟨_, hList, rfl, rfl⟩
  · next hOp =>
    rw [leaves_map]
    constructor
    · rintro ⟨⟨u, left, h⟩, hSingle, rfl, rfl⟩
      exact (leaves_singleValue hOp).mp ⟨h, hSingle⟩
    · rintro ⟨us, hCut, hValue⟩
      obtain ⟨u, rfl⟩ := hValue.single_of_ne hOp
      obtain ⟨h, hSingle⟩ := (leaves_singleValue hOp).mpr ⟨us, hCut, hValue⟩
      exact ⟨_, hSingle, rfl, rfl⟩

theorem operator_eq_ok_iff {l : Lexeme} : operator l = .ok op ↔ l.spells op.word = true := by
  cases l with
  | word w =>
    rw [operator, ← comparison_eq_some_iff]
    cases Comparison.ofWord? w <;> simp
  | _ => simp [operator, Lexeme.spells]

theorem leaves_comparison {e : Entity} {cond : Condition} :
    Leaves (comparison e c ls) cond rest ↔
      ∃ l op us v, ls = l :: us ++ rest ∧ l.spells op.word = true ∧ Value c op us v ∧
        cond = ⟨e.aliasName, c.name, c.type, op, v⟩ := by
  rw [comparison.eq_def]
  split
  · exact iff_of_false not_leaves_error (by simp)
  · next l after =>
    simp only [leaves_bind, operator_eq_ok_iff]
    constructor
    · rintro ⟨op, hSpells, ⟨v, left, h⟩, hOperand, hRest⟩
      rw [leaves_ok] at hRest
      obtain ⟨rfl, rfl⟩ := hRest
      obtain ⟨us, rfl, hValue⟩ := leaves_operand.mp ⟨_, hOperand⟩
      exact ⟨l, op, us, v, rfl, hSpells, hValue, rfl⟩
    · rintro ⟨m, op, us, v, hCut, hSpells, hValue, rfl⟩
      cases hCut
      obtain ⟨h, hOperand⟩ := leaves_operand.mpr ⟨us, rfl, hValue⟩
      exact ⟨op, hSpells, _, hOperand, leaves_ok.mpr ⟨rfl, rfl⟩⟩

theorem leaves_conditionOn {e : Entity} {w : List Char} {cond : Condition}
    (hWord : (Lexeme.word w).isConnective = false) :
    Leaves (conditionOn e w ls) cond rest ↔
      ∃ us, ls = us ++ rest ∧ Written e (.word w :: us) cond := by
  rw [conditionOn]
  split
  · next c hColumn =>
    rw [leaves_comparison]
    constructor
    · rintro ⟨l, op, us, v, rfl, hSpells, hValue, rfl⟩
      exact ⟨l :: us, rfl, .mk hWord hColumn hSpells hValue⟩
    · rintro ⟨us, rfl, hWritten⟩
      cases hWritten with
      | mk _ hOther hSpells hValue =>
        cases hColumn.symm.trans hOther
        exact ⟨_, _, _, _, rfl, hSpells, hValue, rfl⟩
  · next hColumn =>
    refine iff_of_false not_leaves_error ?_
    rintro ⟨us, rfl, hWritten⟩
    cases hWritten with
    | mk _ hOther => exact absurd (hColumn.symm.trans hOther) (by simp)

end TableGateway.Filter
