import TableGateway.Proofs.Sql.Page
import TableGateway.Proofs.Sql.Writable

/-!
# Columns of a result

The columns that a statement hands back, as its text lists them behind `SELECT`, `RETURNING` or
`OUTPUT`. A column may be cast to text, and it goes by its label if it has one. All columns of an
alias are those of the catalog, in its order. A column is cast where its type needs it, and casts
change no name.
-/

namespace TableGateway

structure Output where
  /-- The alias that the column is taken from. -/
  source : Option String
  name : String
  asText : Bool
  label : Option String
deriving DecidableEq

namespace Output

/-- The name of the column in the result. -/
def result (o : Output) : String := o.label.getD o.name

def everything (e : Entity) (aliasName : String) : List Output :=
  e.columns.map fun c => ⟨some aliasName, c.name, false, none⟩

def readLabel? : List Token → Option (Option String)
  | [] => some none
  | [.word w, .name s] => if w = "AS".toList then some (some (String.ofList s)) else none
  | _ => none

/-- A column with what stands behind it. -/
def readColumn? (source : Option String) (name : List Char) : List Token → Option Output
  | .mark ':' :: .mark ':' :: .word w :: behind =>
    if w = "text".toList then
      (readLabel? behind).map fun label => ⟨source, String.ofList name, true, label⟩
    else none
  | behind => (readLabel? behind).map fun label => ⟨source, String.ofList name, false, label⟩

/-- One item of a list of columns. -/
def read? (e : Entity) : List Token → Option (List Output)
  | [.name a, .mark '.', .mark '*'] => some (everything e (String.ofList a))
  | .name a :: .mark '.' :: .name s :: behind =>
    (readColumn? (some (String.ofList a)) s behind).map ([·])
  | .word w :: .mark '.' :: .name s :: behind =>
    if w = "INSERTED".toList then (readColumn? none s behind).map ([·]) else none
  | .name s :: behind => (readColumn? none s behind).map ([·])
  | _ => none

def readList? (e : Entity) (ts : List Token) : Option (List Output) :=
  if ts = [] then some [] else ((ts.splitOn (.mark ',')).mapM (read? e)).map List.flatten

end Output

namespace Token

def startsOutputs : Token → Bool
  | .word w => w ∈ ["SELECT".toList, "RETURNING".toList, "OUTPUT".toList]
  | _ => false

/-- A word that does not belong to the list of columns before it. -/
def endsOutputs : Token → Bool
  | .word w => w ∈ ["FROM".toList, "WHERE".toList, "VALUES".toList, "DEFAULT".toList]
  | _ => false

end Token

/-- The columns that the statement hands back, if it does. -/
def Statement.outputs? (e : Entity) (s : Statement) : Option (List Output) :=
  match s.tokens.dropWhile (!·.startsOutputs) with
  | [] => none
  | _ :: behind => Output.readList? e (behind.takeWhile (!·.endsOutputs))

namespace Output

variable {e : Entity} {os : List Output}

/-- Tokens that are read as one item, which no other word and no comma interrupts. -/
structure Spells (e : Entity) (ts : List Token) (os : List Output) : Prop where
  goesOn : ∀ t ∈ ts, t.endsOutputs = false
  isOne : .mark ',' ∉ ts
  read : read? e ts = some os

/-- The tokens behind the name of a column. -/
def ending (o : Output) : List Token :=
  (if o.asText then [.mark ':', .mark ':', .word "text".toList] else []) ++
    match o.label with
    | some label => [.word "AS".toList, .name label.toList]
    | none => []

def tokens (o : Output) : List Token :=
  match o.source with
  | some a => .name a.toList :: .mark '.' :: .name o.name.toList :: o.ending
  | none => .name o.name.toList :: o.ending

theorem goesOn_tokens (o : Output) : ∀ t ∈ o.tokens, t.endsOutputs = false := by
  obtain ⟨source, name, asText, label⟩ := o
  cases source <;> cases asText <;> cases label <;> simp [tokens, ending, Token.endsOutputs]

theorem isOne_tokens (o : Output) : .mark ',' ∉ o.tokens := by
  obtain ⟨source, name, asText, label⟩ := o
  cases source <;> cases asText <;> cases label <;> simp [tokens, ending]

theorem readColumn?_ending (o : Output) :
    readColumn? o.source o.name.toList o.ending = some o := by
  obtain ⟨source, name, asText, label⟩ := o
  cases asText <;> cases label <;> simp [ending, readColumn?, readLabel?]

theorem spells_tokens (o : Output) : Spells e o.tokens [o] where
  goesOn := goesOn_tokens o
  isOne := isOne_tokens o
  read := by
    have hColumn := readColumn?_ending o
    obtain ⟨source, name, asText, label⟩ := o
    cases source with
    | some a => simpa [tokens, read?] using hColumn
    | none =>
      cases asText <;> cases label <;> simp [tokens, ending, read?, readColumn?, readLabel?]

theorem spells_everything (aliasName : String) :
    Spells e [.name aliasName.toList, .mark '.', .mark '*'] (everything e aliasName) where
  goesOn := by simp [Token.endsOutputs]
  isOne := by simp
  read := by simp [read?]

theorem spells_inserted (name : String) :
    Spells e [.word "INSERTED".toList, .mark '.', .name name.toList]
      [⟨none, name, false, none⟩] where
  goesOn := by simp [Token.endsOutputs]
  isOne := by simp
  read := by simp [read?, readColumn?, readLabel?]

variable {α : Type} {f : α → List Token} {g : α → List Output}

theorem mapM_read? (h : ∀ x, Spells e (f x) (g x)) (xs : List α) :
    (xs.map f).mapM (read? e) = some (xs.map g) := by
  induction xs with
  | nil => rfl
  | cons x xs ih =>
    rw [List.map_cons, List.mapM_cons, (h x).read, ih]
    rfl

theorem readList?_intercalate (h : ∀ x, Spells e (f x) (g x)) (xs : List α) :
    readList? e ([.mark ','].intercalate (xs.map f)) = some (xs.flatMap g) := by
  cases xs with
  | nil => rfl
  | cons x xs =>
    have hSplit : ([Token.mark ','].intercalate ((x :: xs).map f)).splitOn (Token.mark ',') =
        (x :: xs).map f :=
      List.splitOn_intercalate (Token.mark ',') (List.forall_mem_map.mpr fun x _ => (h x).isOne)
        (by simp)
    have hSome : [Token.mark ','].intercalate ((x :: xs).map f) ≠ [] := by
      intro hNil
      rw [hNil, List.map_cons, List.splitOn_nil] at hSplit
      have hRead := (h x).read
      rw [← (List.cons.inj hSplit).1] at hRead
      cases hRead
    rw [readList?, if_neg hSome, hSplit, mapM_read? h, Option.map_some, List.flatMap_def]

theorem goesOn_intercalate (h : ∀ x, Spells e (f x) (g x)) (xs : List α) :
    ∀ t ∈ [Token.mark ','].intercalate (xs.map f), t.endsOutputs = false :=
  Draft.forall_mem_intercalate (by simp [Token.endsOutputs])
    (List.forall_mem_map.mpr fun x _ => (h x).goesOn)

end Output

namespace Dialect

variable {d : Dialect} {e : Entity} {source : Option String} {name : String} {type : DataType}
  {label : Option String}

/-- A column under a label or its own name, cast where its type needs it. -/
def output (d : Dialect) (source : Option String) (name : String) (type : DataType)
    (label : Option String) : Output :=
  if (d.castBack? type).isSome then ⟨source, name, true, some (label.getD name)⟩
  else ⟨source, name, false, label⟩

theorem output_of_cast {cast : Draft} (h : d.castBack? type = some cast) :
    d.output source name type label = ⟨source, name, true, some (label.getD name)⟩ := by
  rw [output, if_pos (by rw [h]; rfl)]

theorem output_of_plain (h : d.castBack? type = none) :
    d.output source name type label = ⟨source, name, false, label⟩ := by
  rw [output, if_neg (by simp [h])]

theorem result_output : (d.output source name type label).result = label.getD name := by
  rw [output]
  split <;> rfl

theorem asText_output :
    (d.output source name type label).asText = true ↔ d = .postgres ∧ type = .decimal := by
  cases hCast : d.castBack? type with
  | some cast =>
    rw [output_of_cast hCast]
    simp [(castBack?_eq_some_iff.mp hCast).1]
  | none =>
    have hPlain : ¬ (d = .postgres ∧ type = .decimal) := fun h => by
      simp [castBack?, h] at hCast
    simp [output_of_plain hCast, hPlain]

end Dialect

def Column.output (d : Dialect) (c : Column) : Output := d.output none c.name c.type none

def SelectItem.outputs (d : Dialect) (e : Entity) : SelectItem → List Output
  | .wildcard aliasName => Output.everything e aliasName
  | .column aliasName name label type => [d.output (some aliasName) name type label]

namespace Draft

variable {d : Dialect} {e : Entity} {α : Type} {f : α → Draft} {g : α → List Output}

/-- A draft that is read as a list of columns, wherever it stands. -/
structure Lists (d : Dialect) (e : Entity) (a : Draft) (os : List Output) : Prop where
  goesOn : ∀ ps, ∀ t ∈ a.tokens d ps, t.endsOutputs = false
  read : ∀ ps, Output.readList? e (a.tokens d ps) = some os

theorem lists_listed (hSilent : ∀ x, Silent (f x))
    (h : ∀ x ps, Output.Spells e ((f x).tokens d ps) (g x)) (xs : List α) :
    Lists d e (listed (xs.map f)) (xs.flatMap g) := by
  have hTokens (ps : Parameters) : (listed (xs.map f)).tokens d ps =
      [.mark ','].intercalate (xs.map fun x => (f x).tokens d ps) := by
    rw [tokens_listed d ps (List.forall_mem_map.mpr fun x _ => hSilent x), List.map_map]
    rfl
  constructor
  · intro ps
    rw [hTokens]
    exact Output.goesOn_intercalate (h · ps) xs
  · intro ps
    rw [hTokens]
    exact Output.readList?_intercalate (h · ps) xs

end Draft

namespace Dialect

open Draft

variable {d : Dialect} {e : Entity}

theorem tokens_column (ps : Parameters) (aliasName name : String) (label : Option String)
    (type : DataType) :
    (d.selectItem (.column aliasName name label type)).tokens d ps =
      (d.output (some aliasName) name type label).tokens := by
  cases hCast : d.castBack? type with
  | some cast =>
    obtain ⟨⟨rfl, -⟩, rfl⟩ := castBack?_eq_some_iff.mp hCast
    simp only [output_of_cast hCast, selectItem, hCast]
    rfl
  | none =>
    simp only [output_of_plain hCast, selectItem, hCast]
    cases label <;> rfl

theorem tokens_readAs (ps : Parameters) (c : Column) :
    Draft.tokens d ps (.name c.name :: d.readAs c.type c.name) = (c.output d).tokens := by
  rw [Column.output, readAs]
  cases hCast : d.castBack? c.type with
  | some cast =>
    obtain ⟨⟨rfl, -⟩, rfl⟩ := castBack?_eq_some_iff.mp hCast
    rw [output_of_cast hCast]
    rfl
  | none =>
    rw [output_of_plain hCast]
    rfl

theorem spells_selectItem (item : SelectItem) (ps : Parameters) :
    Output.Spells e ((d.selectItem item).tokens d ps) (item.outputs d e) := by
  cases item with
  | wildcard aliasName => exact Output.spells_everything aliasName
  | column aliasName name label type =>
    rw [tokens_column]
    exact Output.spells_tokens _

theorem lists_selectItems (items : List SelectItem) :
    Lists d e (d.selectItems items) (items.flatMap (SelectItem.outputs d e)) :=
  lists_listed silent_selectItem spells_selectItem items

theorem lists_columns (cs : List Column) : Lists d e (d.columns cs) (cs.map (Column.output d)) := by
  rw [← List.flatMap_pure_eq_map (Column.output d)]
  refine lists_listed (fun c => ?_) (fun c ps => ?_) cs
  · simpa [columns, listed] using silent_columns (d := d) [c]
  · rw [tokens_readAs]
    exact Output.spells_tokens _

theorem lists_inserted (cs : List Column) :
    Lists .sqlServer e (listed (cs.map fun c => [.keyword .INSERTED, .mark .dot, .name c.name]))
      (cs.map (Column.output .sqlServer)) := by
  rw [← List.flatMap_pure_eq_map (Column.output .sqlServer)]
  refine lists_listed (fun c => ?_) (fun c ps => ?_) cs
  · simp [Part.isSilent]
  · exact Output.spells_inserted c.name

end Dialect

namespace Part

/-- A word behind which a list of columns begins. -/
def startsOutputs : Part → Bool
  | .keyword k => k = .SELECT || k = .RETURNING || k = .OUTPUT
  | _ => false

theorem startsOutputs_castTokens (d : Dialect) (type : Option DataType) :
    ∀ t ∈ castTokens d type, t.startsOutputs = false := by
  cases type with
  | none => cases d <;> decide
  | some type => cases d <;> cases type <;> decide

theorem startsOutputs_decimal (n : Nat) :
    Token.startsOutputs (.word (Text.decimal n)) = false := by
  simp only [Token.startsOutputs, decide_eq_false_iff_not, List.mem_cons, List.not_mem_nil,
    or_false, not_or]
  exact ⟨Text.decimal_ne_cons (by decide), Text.decimal_ne_cons (by decide),
    Text.decimal_ne_cons (by decide)⟩

theorem startsOutputs_tokens {p : Part} (h : p.startsOutputs = false) (d : Dialect)
    (ps : Parameters) : ∀ t ∈ p.tokens d ps, t.startsOutputs = false := by
  cases p with
  | keyword k =>
    have hWord : Token.startsOutputs (.word k.text.toList) = (keyword k).startsOutputs := by
      cases k <;> decide
    rw [tokens, List.forall_mem_singleton, hWord, h]
  | mark m => cases m <;> simp [tokens, Mark.text, Token.startsOutputs]
  | relation op => cases op <;> simp [tokens, relationText, Comparison.symbol?, Token.startsOutputs]
  | name s => simp [tokens, Token.startsOutputs]
  | number n =>
    rw [tokens]
    split
    · simpa [Token.startsOutputs] using startsOutputs_decimal n.natAbs
    · simpa using startsOutputs_decimal n.natAbs
  | value hint v type =>
    rw [tokens, List.forall_mem_cons]
    exact ⟨rfl, startsOutputs_castTokens d type⟩

end Part

namespace Draft

variable {d : Dialect} {e : Entity} {a b : Draft}

/-- No list of columns begins in it. -/
def Quiet (a : Draft) : Prop := ∀ p ∈ a, p.startsOutputs = false

theorem Quiet.tokens (h : Quiet a) (ps : Parameters) :
    ∀ t ∈ a.tokens d ps, t.startsOutputs = false := by
  induction a generalizing ps with
  | nil => simp [Draft.tokens]
  | cons p a ih =>
    rw [Quiet, List.forall_mem_cons] at h
    rw [Draft.tokens, List.forall_mem_append]
    exact ⟨Part.startsOutputs_tokens h.1 d ps, ih h.2 _⟩

@[simp] theorem quiet_nil : Quiet [] := by simp [Quiet]

@[simp] theorem quiet_cons {p : Part} : Quiet (p :: a) ↔ p.startsOutputs = false ∧ Quiet a :=
  List.forall_mem_cons

@[simp] theorem quiet_append : Quiet (a ++ b) ↔ Quiet a ∧ Quiet b :=
  List.forall_mem_append

theorem Quiet.spaced {drafts : List Draft} (h : ∀ a ∈ drafts, Quiet a) : Quiet (spaced drafts) :=
  forall_mem_intercalate (by simp [Part.startsOutputs]) h

theorem Quiet.listed {drafts : List Draft} (h : ∀ a ∈ drafts, Quiet a) : Quiet (listed drafts) :=
  forall_mem_intercalate (by simp [Part.startsOutputs]) h

theorem Quiet.enclosed (h : Quiet a) : Quiet (enclosed a) := by
  simp [Draft.enclosed, h, Part.startsOutputs]

theorem Quiet.equals (hLeft : Quiet a) (hRight : Quiet b) : Quiet (equals a b) :=
  .spaced (by simp [hLeft, hRight, Part.startsOutputs])

theorem quiet_words {ks : List Keyword} (h : ∀ k ∈ ks, (Part.keyword k).startsOutputs = false) :
    Quiet (words ks) :=
  .spaced (List.forall_mem_map.mpr fun k hk => by simp [h k hk])

theorem quiet_table (d : Dialect) (e : Entity) : Quiet (e.table d) := by
  rw [Entity.table, Dialect.table]
  split <;> simp [columnOf, Part.startsOutputs]

theorem quiet_flatten {drafts : List Draft} (h : ∀ a ∈ drafts, Quiet a) : Quiet drafts.flatten := by
  intro p hp
  obtain ⟨a, ha, hpa⟩ := List.mem_flatten.mp hp
  exact h a ha p hpa

end Draft

namespace Statement

open Draft

variable {d : Dialect} {e : Entity} {s : Statement} {os : List Output}

theorem outputs?_eq_some {front behind : List Token} {start : Token} {fields : Draft}
    {ps : Parameters} (hTokens : s.tokens = front ++ start :: (fields.tokens d ps ++ behind))
    (hFront : ∀ t ∈ front, t.startsOutputs = false) (hStart : start.startsOutputs = true)
    (hFields : Lists d e fields os) (hBehind : Text.Stops (!·.endsOutputs) behind) :
    s.outputs? e = some os := by
  have hDrop : s.tokens.dropWhile (!·.startsOutputs) =
      start :: (fields.tokens d ps ++ behind) := by
    rw [hTokens]
    refine Text.dropWhile_append_of_stops (fun t ht => ?_) ?_
    · simp [hFront t ht]
    · rintro t ⟨⟩
      simp [hStart]
  have hTake : (fields.tokens d ps ++ behind).takeWhile (!·.endsOutputs) = fields.tokens d ps := by
    refine Text.takeWhile_append_of_stops (fun t ht => ?_) hBehind
    simp [hFields.goesOn ps t ht]
  simp only [outputs?, hDrop, hTake, hFields.read]

theorem outputs?_eq_none (h : ∀ t ∈ s.tokens, t.startsOutputs = false) : s.outputs? e = none := by
  have hDrop : s.tokens.dropWhile (!·.startsOutputs) = [] := by
    rw [List.dropWhile_eq_nil_iff]
    intro t ht
    simp [h t ht]
  simp only [outputs?, hDrop]

/-- What is selected stands between the first word and the table. -/
theorem outputs?_selection {fields : Draft} {behind : List Draft}
    (hLegible : Legible d (spaced ([.keyword .SELECT] :: fields :: [.keyword .FROM] :: behind)))
    (hFields : Lists d e fields os) :
    outputs? e ⟨d, spaced ([.keyword .SELECT] :: fields :: [.keyword .FROM] :: behind)⟩ =
      some os := by
  have hTokens : tokens ⟨d, spaced ([.keyword .SELECT] :: fields :: [.keyword .FROM] :: behind)⟩ =
      [] ++ .word "SELECT".toList :: (fields.tokens d {} ++
        Draft.tokens d (bind {} fields) ([.keyword .FROM] :: behind).flatten) := by
    rw [tokens_eq hLegible]
    change (spaced _).tokens d {} = _
    rw [tokens_spaced, List.flatten_cons, List.flatten_cons, List.singleton_append, Draft.tokens,
      tokens_append]
    rfl
  refine outputs?_eq_some hTokens (by simp) rfl hFields ?_
  rintro t ⟨⟩
  decide

theorem outputs?_projection {behind : List Draft} (items : List SelectItem)
    (hLegible : Legible d
      (spaced ([.keyword .SELECT] :: e.projection d items :: [.keyword .FROM] :: behind))) :
    outputs? e
        ⟨d, spaced ([.keyword .SELECT] :: e.projection d items :: [.keyword .FROM] :: behind)⟩ =
      some ((e.selected d items).flatMap (SelectItem.outputs d e)) :=
  outputs?_selection hLegible (Dialect.lists_selectItems _)

theorem outputs?_list (d : Dialect) (e : Entity) (q : QueryPlan) :
    (list d e q).select.outputs? e =
      some ((e.selected d q.fields).flatMap (SelectItem.outputs d e)) :=
  outputs?_projection q.fields (legible_list d e q).1

theorem outputs?_rowRead (d : Dialect) (e : Entity) (q : QueryPlan) (key : Column)
    (v : BoundValue) :
    (rowRead d e q key v).outputs? e =
      some ((e.selected d q.fields).flatMap (SelectItem.outputs d e)) :=
  outputs?_projection q.fields (legible_rowRead e q key v)

theorem outputs?_rowByKey {key : Draft} (column : Column) (h : Legible d key) :
    (Mutation.rowByKey d e column key).outputs? e = some (e.columns.map (Column.output d)) :=
  outputs?_selection (Mutation.legible_rowByKey e column h) (Dialect.lists_columns e.columns)

theorem outputs?_clause {k : Keyword} {front back : List Draft} {fields : Draft}
    (hLegible : Legible d (spaced (front ++ spaced [[.keyword k], fields] :: back)))
    (hFront : ∀ a ∈ front, Quiet a) (hStart : Token.startsOutputs (.word k.text.toList) = true)
    (hFields : Lists d e fields os)
    (hBack : ∀ ps, Text.Stops (!·.endsOutputs) (Draft.tokens d ps back.flatten)) :
    outputs? e ⟨d, spaced (front ++ spaced [[.keyword k], fields] :: back)⟩ = some os := by
  have hTokens : (⟨d, spaced (front ++ spaced [[.keyword k], fields] :: back)⟩ : Statement).tokens =
      Draft.tokens d {} front.flatten ++ .word k.text.toList ::
        (fields.tokens d (bind {} front.flatten) ++
          Draft.tokens d (bind (bind {} front.flatten) (spaced [[.keyword k], fields]))
            back.flatten) := by
    rw [tokens_eq hLegible]
    change (spaced _).tokens d {} = _
    rw [tokens_spaced, List.flatten_append, tokens_append, List.flatten_cons, tokens_append,
      tokens_spaced, List.flatten_cons, List.flatten_singleton, List.singleton_append, Draft.tokens,
      List.append_assoc]
    rfl
  exact outputs?_eq_some hTokens ((quiet_flatten hFront).tokens {}) hStart hFields (hBack _)

/-- A clause that hands the row back stands between what names the change and what ends the list of
columns, or behind both. -/
theorem outputs?_rowReturn {front middle : List Draft}
    (hLegible : Legible d (spaced (front ++ (d.rowReturn e.columns).clauses.1 ++ middle ++
      (d.rowReturn e.columns).clauses.2)))
    (hFront : ∀ a ∈ front, Quiet a) (hMiddle : ∀ a ∈ middle, Quiet a)
    (hEnds : ∀ ps, Text.Stops (!·.endsOutputs) (Draft.tokens d ps middle.flatten)) :
    outputs? e ⟨d, spaced (front ++ (d.rowReturn e.columns).clauses.1 ++ middle ++
        (d.rowReturn e.columns).clauses.2)⟩ =
      if d = .mysql then none else some (e.columns.map (Column.output d)) := by
  have hAround : ∀ a ∈ front ++ middle, Quiet a := List.forall_mem_append.mpr ⟨hFront, hMiddle⟩
  cases d with
  | postgres | sqlite =>
    simp only [Dialect.rowReturn, Dialect.RowReturn.clauses, List.append_nil] at hLegible ⊢
    exact outputs?_clause hLegible hAround (by decide) (Dialect.lists_columns e.columns)
      (by simp [Draft.tokens, Text.Stops])
  | sqlServer =>
    simp only [Dialect.rowReturn, Dialect.RowReturn.clauses, List.append_nil, List.append_assoc,
      List.singleton_append] at hLegible ⊢
    exact outputs?_clause hLegible hFront (by decide) (Dialect.lists_inserted e.columns) hEnds
  | mysql =>
    simp only [Dialect.rowReturn, Dialect.RowReturn.clauses, List.append_nil] at hLegible ⊢
    refine outputs?_eq_none ?_
    rw [tokens_eq hLegible]
    exact (Quiet.spaced hAround).tokens {}

end Statement

namespace Mutation

open Draft

variable {d : Dialect} {e : Entity} {m : Mutation}

theorem quiet_insertedValues (d : Dialect) (assignments : List Assignment) :
    ∀ a ∈ (insertedValues d assignments).1 ++ (insertedValues d assignments).2, Quiet a := by
  have hNames : Quiet (listed (assignments.map Assignment.columnName)) :=
    .listed (by simp [Assignment.columnName, Part.startsOutputs])
  have hValues : Quiet (listed (assignments.map Assignment.placeholder)) :=
    .listed (by simp [Assignment.placeholder, Part.startsOutputs])
  have hNone : Quiet (spaced [[.keyword .VALUES], enclosed []]) :=
    .spaced (by simp [quiet_nil.enclosed, Part.startsOutputs])
  have hDefault : Quiet (words [.DEFAULT, .VALUES]) := quiet_words (by decide)
  rw [insertedValues]
  split
  · split
    · simp [quiet_nil.enclosed, hNone]
    · simp [hDefault]
  · simp [hNames.enclosed, hValues.enclosed, Part.startsOutputs]

theorem stops_insertedValues (d : Dialect) (assignments : List Assignment) (ps : Parameters) :
    Text.Stops (!·.endsOutputs) (Draft.tokens d ps (insertedValues d assignments).2.flatten) := by
  rw [insertedValues]
  split
  · split <;>
    · rintro t ⟨⟩
      decide
  · rintro t ⟨⟩
    decide

theorem outputs?_insertion (d : Dialect) (e : Entity) (assignments : List Assignment) :
    (insertion d e assignments).statement.outputs? e =
      if d = .mysql then none else some (e.columns.map (Column.output d)) := by
  have hLegible := legible_insertion d e assignments
  have hValues := List.forall_mem_append.mp (quiet_insertedValues d assignments)
  have hFront : ∀ a ∈ words [.INSERT, .INTO] :: e.table d :: (insertedValues d assignments).1,
      Quiet a := by
    simp only [List.forall_mem_cons]
    exact ⟨quiet_words (by decide), quiet_table d e, hValues.1⟩
  rw [insertion_statement, Statement.insertionPieces, List.append_assoc, List.append_assoc,
    ← List.cons_append, ← List.cons_append, ← List.append_assoc, ← List.append_assoc] at hLegible ⊢
  exact Statement.outputs?_rowReturn hLegible hFront hValues.2 (stops_insertedValues d assignments)

theorem outputs?_rowUpdate (column : Column) (key : BoundValue) (assignments : List Assignment) :
    (rowUpdate d e column key assignments).statement.outputs? e =
      if d = .mysql then none else some (e.columns.map (Column.output d)) := by
  have hLegible := legible_rowUpdate d e column key assignments
  have hEquals (c : Column) (v : BoundValue) :
      Quiet (equals [.name c.name] [.value c.name v (some c.type)]) :=
    .equals (by simp [Part.startsOutputs]) (by simp [Part.startsOutputs])
  have hEquations : Quiet (listed (assignments.map Assignment.equation)) :=
    .listed (List.forall_mem_map.mpr fun a _ => hEquals a.column a.value)
  rw [rowUpdate_statement] at hLegible ⊢
  refine Statement.outputs?_rowReturn hLegible ?_ ?_ ?_
  · simp [quiet_table, hEquations, Part.startsOutputs]
  · simp [keyPlaceholder, hEquals, Part.startsOutputs]
  · rintro ps t ⟨⟩
    decide

/-- The lists of columns that the statements hand back, one after the other. -/
def outputs (e : Entity) (m : Mutation) : List (List Output) :=
  m.statements.filterMap (Statement.outputs? e)

theorem outputs_insert {body : List (String × Json)} (h : insert d e body = .ok m) :
    m.outputs e = if d = .mysql ∧ e.primaryKey? = none then []
      else [e.columns.map (Column.output d)] := by
  obtain ⟨assignments, -, rfl⟩ := insert_eq_ok h
  rw [outputs, statements, List.filterMap_cons, outputs?_insertion, selectBack_insertion]
  by_cases hMysql : d = .mysql
  · subst hMysql
    cases hKey : e.primaryKey? with
    | none => simp
    | some key => simp [Statement.outputs?_rowByKey key (legible_insertedKey key assignments)]
  · simp [hMysql]

theorem outputs_update {id : String} {members : List (String × Json)}
    (h : update d e id members = .ok m) : m.outputs e = [e.columns.map (Column.output d)] := by
  obtain ⟨key, v, assignments, -, -, -, rfl⟩ := update_eq_ok h
  have hRow := Statement.outputs?_rowByKey (d := d) (e := e) key (legible_keyPlaceholder key v)
  cases assignments with
  | nil => simp [outputs, statements, hRow]
  | cons a as =>
    rw [List.isEmpty_cons, if_neg (by decide), outputs, statements, List.filterMap_cons,
      outputs?_rowUpdate, selectBack_rowUpdate]
    by_cases hMysql : d = .mysql
    · subst hMysql
      simp [hRow]
    · simp [hMysql]

end Mutation

end TableGateway
