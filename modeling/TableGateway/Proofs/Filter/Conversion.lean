import TableGateway.Proofs.Literal

/-!
# Filters read as text

Where every column is one of text, a filter is read with its literals as they are written. The
types of the columns only convert these literals, from left to right. So a filter that is read as
text is refused for a literal that its column does not take, and for nothing else.

Both readers take the same lexemes. The second one fails where the first one does, and otherwise
gives what the first one gives after its conversion.
-/

namespace TableGateway

def Column.asText (c : Column) : Column := { c with type := .text }

def Entity.asText (e : Entity) : Entity := { e with columns := e.columns.map Column.asText }

theorem Entity.column?_asText (e : Entity) (name : String) :
    e.asText.column? name = (e.column? name).map Column.asText := by
  rw [column?, column?, asText, List.find?_map]
  rfl

namespace BoundValue

/-- A literal is converted, anything else is left as it is. -/
def convert (column : Column) (op : Comparison) : BoundValue → Except QueryError BoundValue
  | .text s => Filter.literal column op s.toList
  | v => .ok v

end BoundValue

def Operand.convert (column : Column) (op : Comparison) : Operand → Except QueryError Operand
  | .single v => (v.convert column op).map .single
  | .list vs => (vs.mapM (BoundValue.convert column op)).map .list

def Condition.convert (e : Entity) (c : Condition) : Except QueryError Condition :=
  match e.column? c.column with
  | none => .ok c
  | some column =>
    (c.operand.convert column c.operator).map fun operand =>
      { c with type := column.type, operand }

def Filter.convert (e : Entity) : Filter → Except QueryError Filter
  | .condition c => (c.convert e).map .condition
  | .combined left op right => do
    let left ← left.convert e
    let right ← right.convert e
    .ok (.combined left op right)
  | .group inner => (inner.convert e).map .group

namespace Filter

variable {e : Entity} {column : Column} {op : Comparison} {ls : List Lexeme} {f g : Filter}

def convertTerms (e : Entity) :
    List (Combinator × Filter) → Except QueryError (List (Combinator × Filter))
  | [] => .ok []
  | (op, t) :: ts => do
    let t ← t.convert e
    let ts ← convertTerms e ts
    .ok ((op, t) :: ts)

theorem convert_combined (left right : Filter) (op : Combinator) :
    (combined left op right).convert e = (do
      let left ← left.convert e
      let right ← right.convert e
      .ok (.combined left op right)) :=
  rfl

theorem convert_orElse (left : Option Filter) (f : Filter) :
    (orElse left f).convert e = (do
      let left ← left.mapM (convert e)
      let f ← f.convert e
      .ok (orElse left f)) := by
  cases left with
  | none => rw [Option.mapM_none, pure_bind]; cases h : f.convert e <;> rw [orElse, h] <;> rfl
  | some g => rw [Option.mapM_some, bind_map_left]; rfl

/-- A tree that is assembled of converted terms is the assembled tree after its conversion. -/
theorem convert_assemble (left : Option Filter) (f : Filter) (ts : List (Combinator × Filter)) :
    (assemble left f ts).convert e = (do
      let left ← left.mapM (convert e)
      let f ← f.convert e
      let ts ← convertTerms e ts
      .ok (assemble left f ts)) := by
  induction ts generalizing left f with
  | nil =>
    rw [assemble, convert_orElse]
    rfl
  | cons t ts ih =>
    obtain ⟨op, t⟩ := t
    rw [convertTerms]
    cases op with
    | and =>
      rw [assemble, ih, convert_combined]
      simp only [bind_assoc]
      rfl
    | or =>
      rw [assemble, ih, Option.mapM_some, convert_orElse]
      simp only [bind_assoc, bind_map_left]
      rfl

/-- The second outcome is the first one converted, or both are errors. -/
inductive Follows {α β : Type} {P : List Lexeme → Prop} (convert : α → Except QueryError β) :
    Except QueryError (α × {rest // P rest}) → Except QueryError (β × {rest // P rest}) → Prop
  | refused (fault fault' : QueryError) : Follows convert (.error fault) (.error fault')
  | failed {a : α} {fault : QueryError} (rest : {rest // P rest}) (h : convert a = .error fault) :
      Follows convert (.ok (a, rest)) (.error fault)
  | read {a : α} {b : β} (rest : {rest // P rest}) (h : convert a = .ok b) :
      Follows convert (.ok (a, rest)) (.ok (b, rest))

section Follows

variable {α β γ δ : Type} {P Q : List Lexeme → Prop} {first : α → Except QueryError β}
  {all : γ → Except QueryError δ} {x' : Except QueryError (α × {rest // P rest})}
  {x : Except QueryError (β × {rest // P rest})}
  {k' : α × {rest // P rest} → Except QueryError (γ × {rest // Q rest})}
  {k : β × {rest // P rest} → Except QueryError (δ × {rest // Q rest})}

theorem Follows.of_error {fault : QueryError}
    (h : ∀ a rest, x' = .ok (a, rest) → first a = .error fault) :
    Follows first x' (.error fault) := by
  cases x' with
  | error fault' => exact .refused fault' fault
  | ok result => exact .failed result.2 (h result.1 result.2 rfl)

theorem Follows.bind (hx : Follows first x' x)
    (hRead : ∀ a b rest, first a = .ok b → Follows all (k' (a, rest)) (k (b, rest)))
    (hFailed : ∀ a fault rest c left, first a = .error fault → k' (a, rest) = .ok (c, left) →
      all c = .error fault) : Follows all (x' >>= k') (x >>= k) := by
  cases hx with
  | refused fault fault' => exact .refused fault fault'
  | @failed a fault rest hFirst =>
    exact .of_error fun c left hNext => hFailed a fault rest c left hFirst hNext
  | read rest hFirst => exact hRead _ _ rest hFirst

/-- Two readers that only put something around what was read. -/
theorem Follows.wrap {around : α → γ} {around' : β → δ} (hx : Follows first x' x)
    (hk' : ∀ a left h, ∃ h', k' (a, ⟨left, h⟩) = .ok (around a, ⟨left, h'⟩))
    (hk : ∀ b left h, ∃ h', k (b, ⟨left, h⟩) = .ok (around' b, ⟨left, h'⟩))
    (hAll : ∀ a, all (around a) = (first a).map around') :
    Follows all (x' >>= k') (x >>= k) := by
  refine hx.bind (fun a b rest hFirst => ?_) (fun a fault rest c left hFirst hNext => ?_)
  · obtain ⟨h', hEq'⟩ := hk' a rest rest.property
    obtain ⟨h, hEq⟩ := hk b rest rest.property
    rw [hEq', hEq]
    refine .read _ ?_
    rw [hAll, hFirst]
    rfl
  · obtain ⟨h', hEq'⟩ := hk' a rest rest.property
    cases hEq'.symm.trans hNext
    rw [hAll, hFirst]
    rfl

theorem Follows.map {around : α → γ} {around' : β → δ} (hx : Follows first x' x)
    (hAll : ∀ a, all (around a) = (first a).map around') :
    Follows all (x'.map fun (a, rest) => (around a, rest))
      (x.map fun (b, rest) => (around' b, rest)) := by
  have hConverted {a : α} {y : Except QueryError β} (h : first a = y) :
      all (around a) = y.map around' :=
    (hAll a).trans (congrArg _ h)
  cases hx with
  | refused => exact .refused _ _
  | failed rest h => exact .failed rest (hConverted h)
  | read rest h => exact .read rest (hConverted h)

end Follows

theorem literal_asText (column : Column) (op : Comparison) (s : List Char) :
    literal column.asText op s = .ok (.text (String.ofList s)) := by
  rw [literal]
  split <;> rfl

theorem follows_literal {P : List Lexeme → Prop} (s : List Char) (rest : {rest // P rest}) :
    Follows (BoundValue.convert column op) ((literal column.asText op s).map (·, rest))
      ((literal column op s).map (·, rest)) := by
  have hConvert : BoundValue.convert column op (.text (String.ofList s)) = literal column op s := by
    rw [BoundValue.convert, String.toList_ofList]
  rw [literal_asText]
  cases hLiteral : literal column op s with
  | error fault => exact .failed rest (hConvert.trans hLiteral)
  | ok v => exact .read rest (hConvert.trans hLiteral)

theorem follows_bareLiteral {P : List Lexeme → Prop} (w : List Char) (rest : {rest // P rest}) :
    Follows (BoundValue.convert column op) ((bareLiteral column.asText op w).map (·, rest))
      ((bareLiteral column op w).map (·, rest)) := by
  rw [bareLiteral, bareLiteral]
  split
  · split
    · exact .read rest rfl
    · exact .refused _ _
  · exact follows_literal w rest

theorem follows_singleValue (ls : List Lexeme) :
    Follows (BoundValue.convert column op) (singleValue column.asText op ls)
      (singleValue column op ls) := by
  rw [singleValue.eq_def, singleValue.eq_def]
  split
  · exact follows_literal _ _
  · split
    · exact .refused _ _
    · exact follows_bareLiteral _ _
  · exact .refused _ _

theorem ofText_asText (column : Column) (s : String) :
    BoundValue.ofText column.asText s = .ok (.text s) :=
  rfl

/-- The first item of a list is converted first. -/
theorem convert_items (column : Column) (s : List Char) (vs : List BoundValue) :
    (BoundValue.text (String.ofList s) :: vs).mapM (BoundValue.convert column .within) =
      BoundValue.ofText column (String.ofList s) >>= fun v =>
        (vs.mapM (BoundValue.convert column .within)).map (v :: ·) := by
  rw [List.mapM_cons, BoundValue.convert, String.toList_ofList]
  rfl

theorem convert_items_of_error {isFirst : Bool} {l : Lexeme} {s : List Char}
    {vs : List BoundValue} {rest : Shorter (l :: ls)} {fault : QueryError}
    (hText : itemText? l = some s)
    (hFault : BoundValue.ofText column (String.ofList s) = .error fault)
    (hRead : items column.asText isFirst (l :: ls) = .ok (vs, rest)) :
    vs.mapM (BoundValue.convert column .within) = .error fault := by
  obtain ⟨s', v, hContent, hValue, hRest⟩ := leaves_items_cons.mp ⟨rest.property, hRead⟩
  cases hText.symm.trans (itemText?_eq_some_iff.mpr hContent)
  cases hValue
  obtain ⟨more, rfl⟩ : ∃ more, vs = .text (String.ofList s) :: more := by
    rcases hRest with ⟨-, hVs⟩ | ⟨-, more, -, -, hVs⟩
    · exact ⟨[], hVs⟩
    · exact ⟨more, hVs⟩
  rw [convert_items, hFault]
  rfl

theorem follows_items (isFirst : Bool) (ls : List Lexeme) :
    Follows (List.mapM (BoundValue.convert column .within)) (items column.asText isFirst ls)
      (items column isFirst ls) := by
  cases ls with
  | nil =>
    rw [items, items]
    exact .refused _ _
  | cons l ls =>
    cases hText : itemText? l with
    | none =>
      rw [items, items, hText]
      exact .refused _ _
    | some s =>
      cases hValue : BoundValue.ofText column (String.ofList s) with
      | error fault =>
        -- The text reader may go on, but the conversion never gets past this item.
        have hFails : items column isFirst (l :: ls) = .error fault := by
          rw [items, hText]
          simp only [hValue]
          rfl
        rw [hFails]
        exact .of_error fun vs rest => convert_items_of_error hText hValue
      | ok v =>
        rw [items, items, hText]
        simp only [ofText_asText, hValue, Outcome.ok_bind]
        cases ls with
        | nil => exact .refused _ _
        | cons m ls =>
          cases m with
          | closing => exact .read _ (by rw [convert_items, hValue]; rfl)
          | comma =>
            refine (follows_items false ls).wrap (fun _ left h => ⟨by simp; omega, rfl⟩)
              (fun _ left h => ⟨by simp; omega, rfl⟩) fun vs => ?_
            rw [convert_items, hValue]
            rfl
          | opening | quoted | word => exact .refused _ _
termination_by ls.length

theorem follows_listValue (ls : List Lexeme) :
    Follows (List.mapM (BoundValue.convert column .within)) (listValue column.asText ls)
      (listValue column ls) := by
  rw [listValue.eq_def, listValue.eq_def]
  split
  · exact (follows_items true _).wrap (fun _ left h => ⟨by simp; omega, rfl⟩)
      (fun _ left h => ⟨by simp; omega, rfl⟩) fun vs => (Except.map_id ▸ rfl)
  · exact .refused _ _

theorem follows_operand (op : Comparison) (ls : List Lexeme) :
    Follows (Operand.convert column op) (operand column.asText op ls) (operand column op ls) := by
  rw [operand, operand]
  split
  · next hWithin =>
    subst hWithin
    exact (follows_listValue ls).map fun vs => rfl
  · exact (follows_singleValue ls).map fun v => rfl

theorem follows_comparison (hColumn : e.column? column.name = some column) (ls : List Lexeme) :
    Follows (Condition.convert e) (comparison e.asText column.asText ls)
      (comparison e column ls) := by
  rw [comparison.eq_def, comparison.eq_def]
  split
  · exact .refused _ _
  · next l rest =>
    cases operator l with
    | error fault => exact .refused fault fault
    | ok op =>
      refine (follows_operand op rest).wrap (fun _ left h => ⟨by simp; omega, rfl⟩)
        (fun _ left h => ⟨by simp; omega, rfl⟩) fun v => ?_
      rw [Condition.convert]
      change (match e.column? column.name with | none => _ | some column => _) = _
      rw [hColumn]
      rfl

theorem follows_conditionOn (w : List Char) (ls : List Lexeme) :
    Follows (Condition.convert e) (conditionOn e.asText w ls) (conditionOn e w ls) := by
  rw [conditionOn, conditionOn, Entity.column?_asText]
  cases hColumn : e.column? (String.ofList w) with
  | none => exact .refused _ _
  | some column => exact follows_comparison (Entity.column?_name hColumn) ls

theorem follows_chain {ls : List Lexeme}
    (hTerm : Follows (convert e) (term e.asText ls) (term e ls))
    (hMore : ∀ mid : Shorter ls,
      Follows (convertTerms e) (moreTerms e.asText mid) (moreTerms e mid)) :
    Follows (convert e) (chain e.asText ls) (chain e ls) := by
  have hAll (t : Filter) (ts : List (Combinator × Filter)) :
      (assemble none t ts).convert e = t.convert e >>= fun t =>
        (convertTerms e ts).map (assemble none t) :=
    convert_assemble none t ts
  rw [chain, chain]
  refine hTerm.bind (fun t t' mid hFirst => ?_) (fun t fault mid f left hFirst hNext => ?_)
  · refine (hMore mid).wrap (fun _ left h => ⟨by omega, rfl⟩) (fun _ left h => ⟨by omega, rfl⟩)
      fun ts => ?_
    rw [hAll, hFirst]
    rfl
  · obtain ⟨⟨ts, rest⟩, -, hPair⟩ := Outcome.bind_eq_ok_iff.mp hNext
    cases hPair
    rw [hAll, hFirst]
    rfl

theorem follows_moreTerms {ls : List Lexeme}
    (hTerm : ∀ mid : Shorter ls, Follows (convert e) (term e.asText mid) (term e mid))
    (hMore : ∀ mid : Shorter ls,
      Follows (convertTerms e) (moreTerms e.asText mid) (moreTerms e mid)) :
    Follows (convertTerms e) (moreTerms e.asText ls) (moreTerms e ls) := by
  rw [moreTerms.eq_def, moreTerms.eq_def]
  split
  · next w next =>
    have hNext : next.length < (Lexeme.word w :: next).length := by simp
    split
    · exact .read _ rfl
    · next op _ =>
      split
      · exact .refused _ _
      · refine (hTerm ⟨next, hNext⟩).bind (fun t t' mid hFirst => ?_)
          (fun t fault mid ts left hFirst hRest => ?_)
        · have hMid : mid.val.length < (Lexeme.word w :: next).length :=
            Nat.lt_trans mid.property hNext
          refine (hMore ⟨mid, hMid⟩).wrap (fun _ left h => ⟨h.trans hMid.le, rfl⟩)
            (fun _ left h => ⟨h.trans hMid.le, rfl⟩) fun ts => ?_
          rw [convertTerms, hFirst]
          rfl
        · obtain ⟨⟨more, rest⟩, -, hPair⟩ := Outcome.bind_eq_ok_iff.mp hRest
          cases hPair
          rw [convertTerms, hFirst]
          rfl
  · exact .read _ rfl

theorem follows_term {ls : List Lexeme}
    (hChain : ∀ mid : Shorter ls, Follows (convert e) (chain e.asText mid) (chain e mid)) :
    Follows (convert e) (term e.asText ls) (term e ls) := by
  rw [term.eq_def, term.eq_def]
  split
  · exact .refused _ _
  · exact .refused _ _
  · next next _ =>
    have hContent := hChain ⟨next, by simp⟩
    generalize chain e.asText next = x', chain e next = x at hContent
    cases hContent with
    | refused => exact .refused _ _
    | failed rest hInner =>
      obtain ⟨_ | ⟨l, rest⟩, hRest⟩ := rest
      · exact .refused _ _
      · cases l with
        | closing =>
          refine .failed _ ?_
          rw [convert, hInner]
          rfl
        | opening | comma | quoted | word => exact .refused _ _
    | read rest hInner =>
      obtain ⟨_ | ⟨l, rest⟩, hRest⟩ := rest
      · exact .refused _ _
      · cases l with
        | closing =>
          refine .read _ ?_
          rw [convert, hInner]
          rfl
        | opening | comma | quoted | word => exact .refused _ _
  · next w next =>
    split
    · exact .refused _ _
    · exact (follows_conditionOn w next).wrap (fun _ left h => ⟨by simp; omega, rfl⟩)
        (fun _ left h => ⟨by simp; omega, rfl⟩) fun c => rfl
  · exact .refused _ _
  · exact .refused _ _

structure ReadersFollow (e : Entity) (ls : List Lexeme) : Prop where
  term : Follows (convert e) (term e.asText ls) (term e ls)
  moreTerms : Follows (convertTerms e) (moreTerms e.asText ls) (moreTerms e ls)
  chain : Follows (convert e) (chain e.asText ls) (chain e ls)

theorem readers_follow (e : Entity) (ls : List Lexeme) : ReadersFollow e ls := by
  -- The readers call one another on what is left, so they are followed together.
  induction hLength : ls.length using Nat.strongRecOn generalizing ls with
  | ind n ih =>
    subst hLength
    have hShorter (mid : Shorter ls) : ReadersFollow e mid := ih _ mid.property mid rfl
    have hTerm := follows_term fun mid => (hShorter mid).chain
    exact
      { term := hTerm
        moreTerms := follows_moreTerms (fun mid => (hShorter mid).term)
          fun mid => (hShorter mid).moreTerms
        chain := follows_chain hTerm fun mid => (hShorter mid).moreTerms }

/-- A filter is accepted as one of text, and then its literals decide, or it is not accepted. -/
theorem ofLexemes_cases (e : Entity) (ls : List Lexeme) :
    (∃ f, ofLexemes e.asText ls = .ok f ∧ ofLexemes e ls = f.convert e) ∨
      ((∃ fault, ofLexemes e.asText ls = .error fault) ∧
        ∃ fault, ofLexemes e ls = .error fault) := by
  have hChain := (readers_follow e ls).chain
  rw [ofLexemes, ofLexemes]
  generalize chain e.asText ls = x', chain e ls = x at hChain
  cases hChain with
  | refused fault fault' => exact .inr ⟨⟨fault, rfl⟩, fault', rfl⟩
  | @failed f fault rest hFailed =>
    obtain ⟨_ | ⟨l, rest⟩, hRest⟩ := rest
    · exact .inl ⟨f, rfl, hFailed.symm⟩
    · exact .inr ⟨⟨_, rfl⟩, fault, rfl⟩
  | @read f g rest hRead =>
    obtain ⟨_ | ⟨l, rest⟩, hRest⟩ := rest
    · exact .inl ⟨f, rfl, hRead.symm⟩
    · exact .inr ⟨⟨_, rfl⟩, _, rfl⟩

theorem compile_cases (e : Entity) (raw : String) :
    (∃ f, compile e.asText raw = .ok f ∧ compile e raw = f.convert e) ∨
      ((∃ fault, compile e.asText raw = .error fault) ∧
        ∃ fault, compile e raw = .error fault) := by
  rw [compile, compile]
  split
  · exact .inr ⟨⟨_, rfl⟩, _, rfl⟩
  · split
    · exact .inr ⟨⟨_, rfl⟩, _, rfl⟩
    · next ls _ =>
      cases Lexeme.checkShape ls with
      | error fault => exact .inr ⟨⟨_, rfl⟩, _, rfl⟩
      | ok => exact ofLexemes_cases e ls

/-- The types of the columns do nothing to a filter but convert its literals. -/
theorem compile_eq_convert {raw : String} (h : compile e.asText raw = .ok f) :
    compile e raw = f.convert e := by
  obtain ⟨f', hText, hConvert⟩ | ⟨⟨fault, hText⟩, -⟩ := compile_cases e raw
  · cases h.symm.trans hText
    exact hConvert
  · cases h.symm.trans hText

/-- A filter that is accepted is accepted as text. -/
theorem exists_compile_asText {raw : String} (h : compile e raw = .ok g) :
    ∃ f, compile e.asText raw = .ok f ∧ f.convert e = .ok g := by
  obtain ⟨f, hText, hConvert⟩ | ⟨-, fault, hFails⟩ := compile_cases e raw
  · exact ⟨f, hText, hConvert.symm.trans h⟩
  · cases h.symm.trans hFails

end Filter

def Operand.values : Operand → List BoundValue
  | .single v => [v]
  | .list vs => vs

/-- The text is a literal that the condition compares with the column. A text that is searched for
is none. -/
structure Condition.Compares (e : Entity) (c : Condition) (column : Column) (s : String) :
    Prop where
  column : e.column? c.column = some column
  operator : c.operator.isPattern = false
  operand : .text s ∈ c.operand.values

/-- The error is about a literal of the filter that its column does not take. -/
def Filter.Blames (e : Entity) (f : Filter) (fault : QueryError) : Prop :=
  ∃ c ∈ f.conditions, ∃ column s, c.Compares e column s ∧ ¬ column.Accepts s ∧
    fault = .invalidLiteral column.name s (.literalOf column.type)

section Literals

variable {e : Entity} {column : Column} {op : Comparison} {v w : BoundValue} {fault : QueryError}

theorem BoundValue.accepts_of_convert {s : String} (hOp : op.isPattern = false)
    (h : (BoundValue.text s).convert column op = .ok w) : column.Accepts s := by
  rw [convert, Filter.literal, hOp, String.ofList_toList] at h
  exact Column.accepts_of_answers (column.answers_ofText s) h

theorem BoundValue.convert_eq_error (h : v.convert column op = .error fault) :
    ∃ s, v = .text s ∧ op.isPattern = false ∧ ¬ column.Accepts s ∧
      fault = .invalidLiteral column.name s (.literalOf column.type) := by
  cases v with
  | text s =>
    rw [convert, Filter.literal, String.ofList_toList] at h
    split at h
    · cases h
    · next hOp =>
      have hAnswers := column.answers_ofText s
      rw [h] at hAnswers
      cases hAnswers with
      | refused hNone => exact ⟨s, rfl, by simpa using hOp, hNone, rfl⟩
  | null | bool | int | double | uuid | instant | json => cases h

theorem Operand.exists_of_convert {o o' : Operand} (h : o.convert column op = .ok o') :
    ∀ v ∈ o.values, ∃ w, v.convert column op = .ok w := by
  cases o with
  | single v =>
    obtain ⟨w, hValue, -⟩ := Outcome.map_eq_ok_iff.mp h
    exact List.forall_mem_singleton.mpr ⟨w, hValue⟩
  | list vs =>
    obtain ⟨ws, hValues, -⟩ := Outcome.map_eq_ok_iff.mp h
    intro v hv
    obtain ⟨w, -, hValue⟩ := Outcome.exists_of_mem_of_mapM hValues v hv
    exact ⟨w, hValue⟩

theorem Operand.exists_of_convert_eq_error {o : Operand} (h : o.convert column op = .error fault) :
    ∃ v ∈ o.values, v.convert column op = .error fault := by
  cases o with
  | single v => exact ⟨v, List.mem_singleton_self v, Outcome.map_eq_error_iff.mp h⟩
  | list vs => exact Outcome.exists_of_mapM_eq_error (Outcome.map_eq_error_iff.mp h)

namespace Filter

theorem accepts_of_convert {f g : Filter} (h : f.convert e = .ok g) :
    ∀ c ∈ f.conditions, ∀ column s, c.Compares e column s → column.Accepts s := by
  induction f generalizing g with
  | condition c =>
    refine List.forall_mem_singleton.mpr fun column s hCompares => ?_
    obtain ⟨c', hCondition, -⟩ := Outcome.map_eq_ok_iff.mp h
    rw [Condition.convert, hCompares.column] at hCondition
    obtain ⟨o, hOperand, -⟩ := Outcome.map_eq_ok_iff.mp hCondition
    obtain ⟨w, hValue⟩ := Operand.exists_of_convert hOperand _ hCompares.operand
    exact BoundValue.accepts_of_convert hCompares.operator hValue
  | combined left op right ihLeft ihRight =>
    obtain ⟨left', hLeft, h⟩ := Outcome.bind_eq_ok_iff.mp h
    obtain ⟨right', hRight, -⟩ := Outcome.bind_eq_ok_iff.mp h
    exact List.forall_mem_append.mpr ⟨ihLeft hLeft, ihRight hRight⟩
  | group inner ih =>
    obtain ⟨inner', hInner, -⟩ := Outcome.map_eq_ok_iff.mp h
    exact ih hInner

theorem blames_of_convert {f : Filter} (h : f.convert e = .error fault) : f.Blames e fault := by
  induction f with
  | condition c =>
    have hCondition := Outcome.map_eq_error_iff.mp h
    rw [Condition.convert] at hCondition
    split at hCondition
    · cases hCondition
    · next column hColumn =>
      obtain ⟨v, hMember, hValue⟩ :=
        Operand.exists_of_convert_eq_error (Outcome.map_eq_error_iff.mp hCondition)
      obtain ⟨s, rfl, hOp, hNone, hFault⟩ := BoundValue.convert_eq_error hValue
      exact ⟨c, List.mem_singleton_self c, column, s, ⟨hColumn, hOp, hMember⟩, hNone, hFault⟩
  | combined left op right ihLeft ihRight =>
    rcases Outcome.bind_eq_error_iff.mp h with hLeft | ⟨left', -, h⟩
    · obtain ⟨c, hc, hRest⟩ := ihLeft hLeft
      exact ⟨c, List.mem_append_left _ hc, hRest⟩
    · rcases Outcome.bind_eq_error_iff.mp h with hRight | ⟨right', -, hAll⟩
      · obtain ⟨c, hc, hRest⟩ := ihRight hRight
        exact ⟨c, List.mem_append_right _ hc, hRest⟩
      · cases hAll
  | group inner ih => exact ih (Outcome.map_eq_error_iff.mp h)

/-- Of a filter that is accepted as text, the literals alone decide. -/
theorem compile_literals {f : Filter} {raw : String} (h : compile e.asText raw = .ok f) :
    ((∀ c ∈ f.conditions, ∀ column s, c.Compares e column s → column.Accepts s) ∧
        ∃ g, compile e raw = .ok g) ∨
      ∃ fault, compile e raw = .error fault ∧ f.Blames e fault := by
  rw [compile_eq_convert h]
  cases hConvert : f.convert e with
  | ok g => exact .inl ⟨accepts_of_convert hConvert, g, rfl⟩
  | error fault => exact .inr ⟨fault, rfl, blames_of_convert hConvert⟩

end Filter

end Literals

end TableGateway
