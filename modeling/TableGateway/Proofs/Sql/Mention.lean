import TableGateway.Proofs.Sql.Binding

/-!
# Mentioned names

What the names in a statement that reads are there for. Behind `FROM` and `JOIN` stands a table with
the alias by which it is declared, and behind any other `AS` a label. A column is referred to by an
alias and its name, with a dot between them. The reader sees the tokens alone.
-/

namespace TableGateway

/-- What decides on what a name is there for. -/
inductive Sign
  | name (s : String)
  | dot
  | star
  /-- A table comes next. -/
  | source
  | as
deriving DecidableEq

inductive Mention
  | declares (schema : Option String) (table aliasName : String)
  | refers (aliasName column : String)
  | everything (aliasName : String)
  /-- A name with neither an alias before it nor one after it. -/
  | bare (s : String)
deriving DecidableEq

namespace Mention

def read : List Sign → List Mention
  | .source :: .name schema :: .dot :: .name table :: .as :: .name aliasName :: rest =>
    .declares (some schema) table aliasName :: read rest
  | .source :: .name table :: .as :: .name aliasName :: rest =>
    .declares none table aliasName :: read rest
  | .as :: .name _ :: rest => read rest
  | .name aliasName :: .dot :: .name column :: rest => .refers aliasName column :: read rest
  | .name aliasName :: .dot :: .star :: rest => .everything aliasName :: read rest
  | .name s :: rest => .bare s :: read rest
  | _ :: rest => read rest
  | [] => []

/-- Signs that are read as these mentions, whatever follows them. -/
def Reads (signs : List Sign) (ms : List Mention) : Prop :=
  ∀ rest, read (signs ++ rest) = ms ++ read rest

variable {a b : List Sign} {ms ns : List Mention}

theorem reads_nil : Reads [] [] := fun _ => rfl

theorem Reads.append (hLeft : Reads a ms) (hRight : Reads b ns) : Reads (a ++ b) (ms ++ ns) := by
  intro rest
  rw [List.append_assoc, hLeft, hRight, List.append_assoc]

theorem Reads.read_eq (h : Reads a ms) : read a = ms := by
  have hEnd := h []
  rwa [List.append_nil, read, List.append_nil] at hEnd

theorem reads_reference (aliasName column : String) :
    Reads [.name aliasName, .dot, .name column] [.refers aliasName column] := fun _ => rfl

theorem reads_everything (aliasName : String) :
    Reads [.name aliasName, .dot, .star] [.everything aliasName] := fun _ => rfl

theorem reads_label (label : String) : Reads [.as, .name label] [] := fun _ => rfl

theorem reads_star : Reads [.star] [] := fun _ => rfl

end Mention

def Token.sign? : Token → Option Sign
  | .name s => some (.name (String.ofList s))
  | .mark c => if c = '.' then some .dot else if c = '*' then some .star else none
  | .word w =>
    if w = "FROM".toList ∨ w = "JOIN".toList then some .source
    else if w = "AS".toList then some .as
    else none
  | _ => none

namespace Part

def sign? : Part → Option Sign
  | .name s => some (.name s)
  | .mark .dot => some .dot
  | .mark .star => some .star
  | .keyword .FROM | .keyword .JOIN => some .source
  | .keyword .AS => some .as
  | _ => none

theorem sign?_castTokens (d : Dialect) (type : Option DataType) :
    (castTokens d type).filterMap Token.sign? = [] := by
  cases type with
  | none => cases d <;> rfl
  | some type => cases d <;> cases type <;> rfl

theorem sign?_decimal (n : Nat) : Token.sign? (.word (Text.decimal n)) = none := by
  rw [Token.sign?, if_neg, if_neg]
  · exact Text.decimal_ne_cons (by decide)
  · rw [not_or]
    exact ⟨Text.decimal_ne_cons (by decide), Text.decimal_ne_cons (by decide)⟩

theorem sign?_tokens (d : Dialect) (ps : Parameters) (p : Part) :
    (p.tokens d ps).filterMap Token.sign? = p.sign?.toList := by
  cases p with
  | value hint v type => exact sign?_castTokens d type
  | mark m => cases m <;> rfl
  | relation op => cases op <;> rfl
  | number n => exact filterMap_number rfl (sign?_decimal _) d ps
  | keyword k => cases k <;> rfl
  | name s => simp [tokens, Token.sign?, sign?]

end Part

def Statement.mentions (s : Statement) : List Mention :=
  Mention.read (s.tokens.filterMap Token.sign?)

namespace Draft

variable {d : Dialect} {a b : Draft} {ms ns : List Mention}

def signs (a : Draft) : List Sign := a.filterMap Part.sign?

/-- What a draft mentions, wherever it stands. -/
def Mentions (a : Draft) (ms : List Mention) : Prop := Mention.Reads a.signs ms

theorem signs_append (a b : Draft) : Draft.signs (a ++ b) = a.signs ++ b.signs :=
  List.filterMap_append

theorem signs_spaced (drafts : List Draft) : (spaced drafts).signs = drafts.flatMap signs :=
  filterMap_intercalate rfl drafts

theorem signs_listed (drafts : List Draft) : (listed drafts).signs = drafts.flatMap signs :=
  filterMap_intercalate rfl drafts

theorem signs_enclosed (a : Draft) : (enclosed a).signs = a.signs := by
  rw [enclosed, signs_append]
  exact List.append_nil a.signs

theorem Mentions.append (hLeft : Mentions a ms) (hRight : Mentions b ns) :
    Mentions (a ++ b) (ms ++ ns) := by
  rw [Mentions, signs_append]
  exact Mention.Reads.append hLeft hRight

theorem mentions_of_signs (h : a.signs = []) : Mentions a [] := by
  rw [Mentions, h]
  exact Mention.reads_nil

theorem reads_flatMap_signs {drafts : List Draft} {mss : List (List Mention)}
    (h : List.Forall₂ Mentions drafts mss) :
    Mention.Reads (drafts.flatMap signs) mss.flatten := by
  induction h with
  | nil => exact Mention.reads_nil
  | cons hHead _ ih => exact Mention.Reads.append hHead ih

theorem Mentions.spaced {drafts : List Draft} {mss : List (List Mention)}
    (h : List.Forall₂ Mentions drafts mss) : Mentions (spaced drafts) mss.flatten := by
  rw [Mentions, signs_spaced]
  exact reads_flatMap_signs h

/-- A list of drafts, each of which mentions one thing. -/
theorem mentions_listed {α : Type} {f : α → Draft} {g : α → Mention} (xs : List α)
    (h : ∀ x, Mentions (f x) [g x]) : Mentions (listed (xs.map f)) (xs.map g) := by
  rw [Mentions, signs_listed]
  induction xs with
  | nil => exact Mention.reads_nil
  | cons x xs ih => exact Mention.Reads.append (h x) ih

theorem Mentions.enclosed (h : Mentions a ms) : Mentions (enclosed a) ms := by
  rw [Mentions, signs_enclosed]
  exact h

theorem mentions_columnOf (aliasName column : String) :
    Mentions (columnOf aliasName column) [.refers aliasName column] :=
  Mention.reads_reference aliasName column

end Draft

theorem Statement.mentions_eq {s : Statement} {ms : List Mention}
    (hLegible : Draft.Legible s.dialect s.draft) (h : s.draft.Mentions ms) : s.mentions = ms := by
  rw [mentions, tokens_eq hLegible, Draft.filterMap_tokens (Part.sign?_tokens s.dialect)]
  exact Mention.Reads.read_eq h

def Condition.mention (c : Condition) : Mention := .refers c.aliasName c.column

def SortKey.mention (k : SortKey) : Mention := .refers k.aliasName k.column

def SelectItem.mention : SelectItem → Mention
  | .wildcard aliasName => .everything aliasName
  | .column aliasName name _ _ => .refers aliasName name

/-- The declaration of a table, which is named with its schema if it has one that is written. -/
def Dialect.declaration (d : Dialect) (schema table : String) : Mention :=
  .declares (if schema = "" ∨ d = .sqlite then none else some schema) table (tableAlias table)

/-- The declaration of the child and the two columns that it is joined on. -/
def Join.mentions (d : Dialect) (j : Join) : List Mention :=
  [d.declaration j.childSchema j.childTable, .refers j.parentAlias j.parentColumn,
    .refers j.childAlias j.childColumn]

namespace Dialect

open Draft

variable {d : Dialect}

theorem mentions_condition (c : Condition) : Mentions (d.condition c) [c.mention] := by
  have hColumn : (columnOf c.aliasName c.column).signs =
      [.name c.aliasName, .dot, .name c.column] := rfl
  have hValue (v : BoundValue) (type : Option DataType) :
      Draft.signs [.value c.column v type] = [] := rfl
  have hRelation (v : BoundValue) :
      (relation c v).signs = [.name c.aliasName, .dot, .name c.column] := by
    rw [relation, signs_spaced]
    rfl
  have hPattern (v : BoundValue) :
      (d.patternCondition c v).signs = [.name c.aliasName, .dot, .name c.column] := by
    cases d with
    | postgres =>
      by_cases hText : c.type = .text <;> simp [patternCondition, matchForm, hText] <;> rfl
    | mysql | sqlite | sqlServer => rfl
  have hList (vs : List BoundValue) :
      (listed (vs.map fun v => [Part.value c.column v (some c.type)])).signs = [] := by
    rw [signs_listed, List.flatMap_map]
    exact List.flatMap_eq_nil_iff.mpr fun v _ => rfl
  have hSigns : (d.condition c).signs = [.name c.aliasName, .dot, .name c.column] := by
    rw [condition]
    split
    · rw [signs_spaced]
      rfl
    · rw [signs_spaced]
      rfl
    · rw [signs_spaced]
      simp only [List.flatMap_cons, List.flatMap_nil, hColumn, signs_enclosed, hList]
      rfl
    · exact hPattern _
    · exact hPattern _
    · exact hRelation _
    · exact hRelation _
  rw [Mentions, hSigns]
  exact Mention.reads_reference c.aliasName c.column

theorem mentions_filter (f : Filter) :
    Mentions (d.filter f) (f.conditions.map Condition.mention) := by
  induction f with
  | condition c => exact mentions_condition c
  | combined left op right ihLeft ihRight =>
    have hWord : Mentions [.keyword (combinator op)] [] :=
      mentions_of_signs (by cases op <;> rfl)
    have hWhole := Mentions.spaced (.cons ihLeft (.cons hWord (.cons ihRight .nil)))
    rw [List.flatten_cons, List.flatten_cons, List.flatten_cons, List.flatten_nil, List.append_nil,
      List.nil_append, ← List.map_append] at hWhole
    exact hWhole
  | group inner ih => exact ih.enclosed

theorem mentions_selectItem (item : SelectItem) : Mentions (d.selectItem item) [item.mention] := by
  cases item with
  | wildcard aliasName => exact Mention.reads_everything aliasName
  | column aliasName column label type =>
    have hLabel (label : String) : Mentions (labelled label) [] := Mention.reads_label label
    have hCast {cast : Draft} (h : d.castBack? type = some cast) : Mentions cast [] := by
      obtain ⟨-, rfl⟩ := castBack?_eq_some_iff.mp h
      exact mentions_of_signs rfl
    have hBehind {a : Draft} (h : Mentions a []) :
        Mentions (columnOf aliasName column ++ a) [.refers aliasName column] :=
      Mentions.append (mentions_columnOf aliasName column) h
    refine hBehind ?_
    split
    · next hSome => exact (hCast hSome).append (hLabel _)
    · exact hLabel _
    · exact mentions_of_signs rfl

theorem mentions_selectItems (items : List SelectItem) :
    Mentions (d.selectItems items) (items.map SelectItem.mention) :=
  mentions_listed items mentions_selectItem

theorem mentions_sortKeys (ks : List SortKey) :
    Mentions (sortKeys ks) (ks.map SortKey.mention) := by
  refine mentions_listed ks fun k => ?_
  have hDirection : Mentions [.keyword (direction k.direction)] [] :=
    mentions_of_signs (by cases k.direction <;> rfl)
  exact Mentions.spaced (.cons (mentions_columnOf k.aliasName k.column) (.cons hDirection .nil))

theorem mentions_paging (p : Paging) (ordered : Bool) : Mentions (d.paging p ordered) [] := by
  refine mentions_of_signs ?_
  rw [paging]
  split
  · split <;> rfl
  · rfl

theorem reads_declaration (schema table : String) :
    Mention.Reads (.source :: (d.table schema table).signs ++ [.as, .name (tableAlias table)])
      [d.declaration schema table] := by
  rw [Dialect.table, declaration]
  split
  · exact fun _ => rfl
  · exact fun _ => rfl

theorem mentions_join (j : Join) : Mentions (d.join j) (j.mentions d) := by
  have hOn : Mentions (equals (columnOf j.parentAlias j.parentColumn)
      (columnOf j.childAlias j.childColumn))
      [.refers j.parentAlias j.parentColumn, .refers j.childAlias j.childColumn] :=
    Mentions.spaced (.cons (mentions_columnOf _ _)
      (.cons (mentions_of_signs rfl) (.cons (mentions_columnOf _ _) .nil)))
  have hSigns : (d.join j).signs =
      (.source :: (d.table j.childSchema j.childTable).signs ++ [.as, .name j.childAlias]) ++
        (equals (columnOf j.parentAlias j.parentColumn)
          (columnOf j.childAlias j.childColumn)).signs := by
    change (spaced _).signs = _
    rw [signs_spaced]
    simp only [List.flatMap_cons, List.flatMap_nil, List.append_nil]
    rw [List.cons_append, List.cons_append, List.append_assoc]
    rfl
  rw [Mentions, hSigns]
  exact (reads_declaration j.childSchema j.childTable).append hOn

theorem mentions_joins (js : List Join) :
    Mentions (d.joins js) (js.flatMap (Join.mentions d)) := by
  induction js with
  | nil => exact mentions_of_signs rfl
  | cons j js ih => exact (mentions_join j).append ih

end Dialect

namespace Entity

open Draft

/-- The columns that are selected where one of the entity has to be cast. -/
def selected (e : Entity) (d : Dialect) (items : List SelectItem) : List SelectItem :=
  if e.needsCast d then items.flatMap e.expand else items

theorem mentions_projection (d : Dialect) (e : Entity) (items : List SelectItem) :
    Mentions (e.projection d items) ((e.selected d items).map SelectItem.mention) :=
  Dialect.mentions_selectItems _

/-- A table and its joins behind `FROM`. -/
theorem mentions_source (d : Dialect) (e : Entity) (js : List Join) :
    Mentions (spaced [[.keyword .FROM], e.source d js])
      (d.declaration e.schema e.name :: js.flatMap (Join.mentions d)) := by
  have hSigns : (spaced [[.keyword .FROM], e.source d js]).signs =
      (.source :: (e.table d).signs ++ [.as, .name e.aliasName]) ++ (d.joins js).signs := by
    rw [signs_spaced, source]
    simp only [List.flatMap_cons, List.flatMap_nil, List.append_nil, signs_append, signs_spaced]
    rw [← List.append_assoc]
    rfl
  rw [Mentions, hSigns]
  exact (Dialect.reads_declaration e.schema e.name).append (Dialect.mentions_joins js)

end Entity

end TableGateway
