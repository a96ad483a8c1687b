import TableGateway.Proofs.Sql.Quotation

/-!
# The gist of statements

What a statement says when the habits of its engine are set aside: how a pattern is matched, the
types of casts, columns that are only handed out, the page with an order that orders nothing, the
schema in front of a table, and how an insertion without columns is spelled. The reader sees the
tokens alone and does not know the engine.
-/

namespace TableGateway

inductive Piece
  | name (s : String)
  | dot | opening | closing
  /-- A placeholder. -/
  | slot
  /-- A comma, a star, or a character of a comparison. -/
  | sign (c : Char)
  | word (w : String)
  /-- The comparison of a text with a pattern, by whatever name. -/
  | matches
  | lower
  /-- What comes next is only handed out, or is the page. -/
  | hides
  | predicate
  | values
  | defaults
  | order
  | into
  /-- Another word that a table stands behind. -/
  | table (w : String)
deriving DecidableEq

namespace Piece

/-- A word that is no decimal. The types of casts are passed over, and `ORDER BY` is one word. -/
def ofWord? (w : String) : Option Piece :=
  match w with
  | "bigint" | "numeric" | "double" | "precision" | "text" | "boolean" | "timestamptz" | "date"
  | "time" | "uuid" | "jsonb" | "ESCAPE" | "BY" => none
  | "LIKE" | "ILIKE" => some .matches
  | "LOWER" => some .lower
  | "SELECT" | "OUTPUT" | "RETURNING" | "LIMIT" | "OFFSET" => some .hides
  | "WHERE" => some .predicate
  | "VALUES" => some .values
  | "DEFAULT" => some .defaults
  | "ORDER" => some .order
  | "INTO" => some .into
  | "FROM" | "JOIN" | "UPDATE" => some (.table w)
  | _ => some (.word w)

/-- A colon belongs to a cast. -/
def ofMark? (c : Char) : Option Piece :=
  match c with
  | '.' => some .dot
  | '(' => some .opening
  | ')' => some .closing
  | ':' => none
  | _ => some (.sign c)

def isShowing : Piece → Bool
  | .predicate | .values | .defaults | .order | .into | .table _ => true
  | _ => false

/-- The pieces that count, from a place on where they are shown or not. -/
def gist : Bool → List Piece → List Piece
  | _, [] => []
  | _, .into :: .name _ :: .dot :: .name t ::
      .opening :: .closing :: .values :: .opening :: .closing :: rest =>
    .into :: .name t :: gist true rest
  | _, .into :: .name t :: .opening :: .closing :: .values :: .opening :: .closing :: rest =>
    .into :: .name t :: gist true rest
  | _, .into :: .name _ :: .dot :: .name t :: rest => .into :: .name t :: gist true rest
  | _, .table w :: .name _ :: .dot :: .name t :: rest => .table w :: .name t :: gist true rest
  | _, .defaults :: .values :: rest => gist true rest
  | _, .order :: .opening :: .hides :: rest => gist false rest
  | true, .lower :: .opening :: .name a :: .dot :: .name c :: .closing :: rest =>
    .name a :: .dot :: .name c :: gist true rest
  | true, .lower :: .opening :: .slot :: .closing :: rest => .slot :: gist true rest
  | _, .hides :: rest => gist false rest
  | shown, p :: rest => if shown || p.isShowing then p :: gist true rest else gist false rest

theorem gist_predicate (rest : List Piece) :
    gist true (.predicate :: rest) = .predicate :: gist true rest := rfl

theorem gist_values (rest : List Piece) :
    gist true (.values :: rest) = .values :: gist true rest := rfl

/-- A piece that neither hides nor shows anything and looks at nothing behind it. -/
def isPlain : Piece → Bool
  | .name _ | .dot | .opening | .closing | .slot | .sign _ | .word _ | .matches => true
  | _ => false

theorem gist_of_plain {ps : List Piece} (h : ∀ p ∈ ps, p.isPlain = true) (rest : List Piece) :
    gist true (ps ++ rest) = ps ++ gist true rest := by
  induction ps with
  | nil => rfl
  | cons p ps ih =>
    rw [List.forall_mem_cons] at h
    have hPiece (more : List Piece) : gist true (p :: more) = p :: gist true more := by
      cases p with
      | name | dot | opening | closing | slot | sign | word | «matches» => rfl
      | lower | hides | predicate | values | defaults | order | into | table => cases h.1
    rw [List.cons_append, hPiece, ih h.2, List.cons_append]

theorem gist_of_hidden {ps : List Piece} (h : ∀ p ∈ ps, p.isPlain = true) (rest : List Piece) :
    gist false (ps ++ rest) = gist false rest := by
  induction ps with
  | nil => rfl
  | cons p ps ih =>
    rw [List.forall_mem_cons] at h
    have hPiece (more : List Piece) : gist false (p :: more) = gist false more := by
      cases p with
      | name | dot | opening | closing | slot | sign | word | «matches» => rfl
      | lower | hides | predicate | values | defaults | order | into | table => cases h.1
    rw [List.cons_append, hPiece, ih h.2]

end Piece

def Token.piece? : Token → Option Piece
  | .name s => some (.name (String.ofList s))
  | .literal _ => none
  | .placeholder _ => some .slot
  | .word w => if w.all Char.isDigit then none else Piece.ofWord? (String.ofList w)
  | .mark c => Piece.ofMark? c

def Statement.gist (s : Statement) : List Piece :=
  Piece.gist true (s.tokens.filterMap Token.piece?)

namespace Part

/-- The pieces of a part, which are the same for every engine. -/
def pieces : Part → List Piece
  | .keyword k => (Piece.ofWord? k.text).toList
  | .mark m => m.text.toList.filterMap fun c =>
    if c = ' ' ∨ m = .backslash then none else Piece.ofMark? c
  | .relation op => (relationText op).toList.map .sign
  | .name s => [.name s]
  | .number n => if n < 0 then [.sign '-'] else []
  | .value _ _ _ => [.slot]

theorem piece?_castTokens (d : Dialect) (type : Option DataType) :
    (castTokens d type).filterMap Token.piece? = [] := by
  cases type with
  | none => cases d <;> rfl
  | some type => cases d <;> cases type <;> rfl

theorem piece?_decimal (n : Nat) : Token.piece? (.word (Text.decimal n)) = none := by
  rw [Token.piece?, if_pos]
  exact List.all_eq_true.mpr fun _ hc => Text.isDigit_of_mem_decimal hc

theorem piece?_tokens (d : Dialect) (ps : Parameters) (p : Part) :
    (p.tokens d ps).filterMap Token.piece? = p.pieces := by
  cases p with
  | value hint v type => exact congrArg (.slot :: ·) (piece?_castTokens d type)
  | mark m => cases m <;> rfl
  | relation op => cases op <;> rfl
  | number n =>
    have hMinus : Token.piece? (.mark '-') = some (.sign '-') := rfl
    rw [tokens, pieces]
    split
    · rw [List.filterMap_cons_some hMinus, List.filterMap_cons_none (piece?_decimal _)]
      rfl
    · rw [List.filterMap_cons_none (piece?_decimal _)]
      rfl
  | keyword k => cases k <;> rfl
  | name s => simp [tokens, Token.piece?, pieces]

def givesPlain (p : Part) : Bool := p.pieces.all Piece.isPlain

@[simp] theorem givesPlain_name (s : String) : (Part.name s).givesPlain = true := rfl

@[simp] theorem givesPlain_value (hint : String) (v : BoundValue) (type : Option DataType) :
    (Part.value hint v type).givesPlain = true := rfl

@[simp] theorem givesPlain_mark (m : Mark) : (Part.mark m).givesPlain = true := by
  cases m <;> rfl

@[simp] theorem givesPlain_relation (op : Comparison) : (Part.relation op).givesPlain = true := by
  cases op <;> rfl

@[simp] theorem givesPlain_number (n : Int) : (Part.number n).givesPlain = true := by
  rw [givesPlain, pieces]
  split <;> rfl

end Part

namespace Draft

variable {d : Dialect} {a b : Draft} {out more : List Piece}

def pieces (a : Draft) : List Piece := a.flatMap Part.pieces

theorem piece?_tokens (d : Dialect) (ps : Parameters) (a : Draft) :
    (a.tokens d ps).filterMap Token.piece? = a.pieces := by
  induction a generalizing ps with
  | nil => rfl
  | cons p rest ih =>
    rw [tokens, List.filterMap_append, Part.piece?_tokens, ih]
    rfl

@[simp] theorem pieces_append (a b : Draft) : Draft.pieces (a ++ b) = a.pieces ++ b.pieces :=
  List.flatMap_append

@[simp] theorem pieces_spaced (drafts : List Draft) :
    (spaced drafts).pieces = drafts.flatMap pieces := by
  induction drafts with
  | nil => rfl
  | cons a rest ih =>
    cases rest with
    | nil => simp [spaced]
    | cons b rest =>
      rw [spaced, List.intercalate_cons_cons, pieces_append, pieces_append, List.append_assoc]
      exact congrArg (a.pieces ++ ·) ih

@[simp] theorem pieces_enclosed (a : Draft) :
    (enclosed a).pieces = .opening :: a.pieces ++ [.closing] := by
  rw [enclosed, pieces_append]
  rfl

def Plain (a : Draft) : Prop := ∀ p ∈ a, p.givesPlain = true

@[simp] theorem plain_nil : Plain [] := nofun

@[simp] theorem plain_cons {p : Part} : Plain (p :: a) ↔ p.givesPlain = true ∧ Plain a :=
  List.forall_mem_cons

@[simp] theorem plain_append : Plain (a ++ b) ↔ Plain a ∧ Plain b := List.forall_mem_append

theorem Plain.spaced {drafts : List Draft} (h : ∀ a ∈ drafts, Plain a) : Plain (spaced drafts) :=
  forall_mem_intercalate (by simp) h

theorem Plain.listed {drafts : List Draft} (h : ∀ a ∈ drafts, Plain a) : Plain (listed drafts) :=
  forall_mem_intercalate (by simp) h

theorem Plain.enclosed (h : Plain a) : Plain (enclosed a) := by
  simp [Draft.enclosed, h]

theorem plain_words {ks : List Keyword}
    (h : (ks.all fun k => (Part.keyword k).givesPlain) = true) : Plain (words ks) :=
  .spaced (List.forall_mem_map.mpr fun k hk => by simpa using List.all_eq_true.mp h k hk)

theorem plain_columnOf (aliasName column : String) : Plain (columnOf aliasName column) := by
  simp [columnOf]

theorem Plain.equals (hLeft : Plain a) (hRight : Plain b) : Plain (equals a b) :=
  .spaced (by simp [hLeft, hRight])

theorem Plain.pieces (h : Plain a) : ∀ x ∈ a.pieces, x.isPlain = true := by
  intro x hx
  obtain ⟨p, hp, hx⟩ := List.mem_flatMap.mp hx
  exact List.all_eq_true.mp (h p hp) x hx

theorem Plain.gist_hidden (h : Plain a) (rest : List Piece) :
    Piece.gist false (a.pieces ++ rest) = Piece.gist false rest :=
  Piece.gist_of_hidden h.pieces rest

/-- What a draft gives to the gist where it is shown, whatever follows it. -/
def Gives (a : Draft) (out : List Piece) : Prop :=
  ∀ rest, Piece.gist true (a.pieces ++ rest) = out ++ Piece.gist true rest

theorem Plain.gives (h : Plain a) : Gives a a.pieces := Piece.gist_of_plain h.pieces

theorem Plain.gist_eq (h : Plain a) : Piece.gist true a.pieces = a.pieces := by
  have hEnd := h.gives []
  rwa [List.append_nil, Piece.gist, List.append_nil] at hEnd

theorem Gives.append (hLeft : Gives a out) (hRight : Gives b more) :
    Gives (a ++ b) (out ++ more) := by
  intro rest
  rw [pieces_append, List.append_assoc, hLeft, hRight, List.append_assoc]

theorem Gives.enclosed (h : Gives a out) : Gives (enclosed a) (.opening :: out ++ [.closing]) := by
  intro rest
  have hClosing : Piece.gist true (.closing :: rest) = .closing :: Piece.gist true rest := rfl
  have hOpening : Piece.gist true (.opening :: (a.pieces ++ .closing :: rest)) =
      .opening :: Piece.gist true (a.pieces ++ .closing :: rest) := rfl
  rw [pieces_enclosed, List.cons_append, List.cons_append, List.append_assoc,
    List.singleton_append, hOpening, h, hClosing]
  simp

/-- Whatever the engine, a draft gives the same. -/
def Agree (f : Dialect → Draft) : Prop := ∃ out, ∀ d, Gives (f d) out

theorem Plain.agree (h : Plain a) : Agree fun _ => a := ⟨a.pieces, fun _ => h.gives⟩

theorem Agree.append {f g : Dialect → Draft} (hLeft : Agree f) (hRight : Agree g) :
    Agree fun d => f d ++ g d := by
  obtain ⟨out, hLeft⟩ := hLeft
  obtain ⟨more, hRight⟩ := hRight
  exact ⟨out ++ more, fun d => (hLeft d).append (hRight d)⟩

theorem Agree.enclosed {f : Dialect → Draft} (h : Agree f) : Agree fun d => enclosed (f d) := by
  obtain ⟨out, h⟩ := h
  exact ⟨_, fun d => (h d).enclosed⟩

theorem Agree.congr {f g : Dialect → Draft} (h : Agree f)
    (hPieces : ∀ d, (g d).pieces = (f d).pieces) : Agree g := by
  obtain ⟨out, h⟩ := h
  refine ⟨out, fun d rest => ?_⟩
  rw [hPieces]
  exact h d rest

end Draft

namespace Dialect

open Draft

variable {d : Dialect}

theorem plain_labelled (label : String) : Plain (labelled label) := by
  have hAs : (Part.keyword .AS).givesPlain = true := rfl
  simp [labelled, hAs]

theorem plain_castBack? {type : DataType} {cast : Draft} (h : d.castBack? type = some cast) :
    Plain cast := by
  obtain ⟨-, rfl⟩ := castBack?_eq_some_iff.mp h
  have hType : (Part.keyword .textType).givesPlain = true := rfl
  simp [hType]

theorem plain_selectItems (items : List SelectItem) : Plain (d.selectItems items) := by
  refine .listed (List.forall_mem_map.mpr fun item _ => ?_)
  cases item with
  | wildcard aliasName => simp [selectItem]
  | column aliasName column label type =>
    cases hCast : d.castBack? type with
    | some cast =>
      simp [selectItem, hCast, plain_columnOf, plain_castBack? hCast, plain_labelled]
    | none => cases label <;> simp [selectItem, hCast, plain_columnOf, plain_labelled]

theorem plain_columns (cs : List Column) : Plain (d.columns cs) := by
  refine .listed (List.forall_mem_map.mpr fun c _ => plain_cons.mpr ⟨rfl, ?_⟩)
  rw [readAs]
  split
  · next hCast => exact plain_append.mpr ⟨plain_castBack? hCast, plain_labelled _⟩
  · exact plain_nil

/-- What hands back a row before the values or the predicate leaves no trace. -/
theorem gist_output (cs : List Column) (rest : List Piece)
    (h : Piece.gist false rest = Piece.gist true rest) :
    Piece.gist true ((d.rowReturn cs).clauses.1.flatMap pieces ++ rest) = Piece.gist true rest := by
  cases d with
  | postgres | mysql | sqlite => rfl
  | sqlServer =>
    have hInserted : Plain
        (listed (cs.map fun c => [.keyword .INSERTED, .mark .dot, .name c.name])) := by
      refine .listed (List.forall_mem_map.mpr fun c _ => ?_)
      have hKeyword : (Part.keyword .INSERTED).givesPlain = true := rfl
      simp [hKeyword]
    change Piece.gist true ((spaced [[.keyword .OUTPUT], _]).pieces ++ [] ++ rest) = _
    rw [List.append_nil, pieces_spaced]
    simp only [List.flatMap_cons, List.flatMap_nil, List.append_nil, List.append_assoc]
    change Piece.gist false (Draft.pieces _ ++ rest) = _
    rw [hInserted.gist_hidden, h]

theorem gist_suffix (cs : List Column) :
    Piece.gist true ((d.rowReturn cs).clauses.2.flatMap pieces) = [] := by
  have hReturning :
      Piece.gist true ((spaced [[.keyword .RETURNING], d.columns cs]).pieces ++ []) = [] := by
    rw [pieces_spaced]
    simp only [List.flatMap_cons, List.flatMap_nil, List.append_nil]
    change Piece.gist false (d.columns cs).pieces = _
    rw [← List.append_nil (d.columns cs).pieces, (plain_columns cs).gist_hidden]
    rfl
  cases d with
  | postgres | sqlite => exact hReturning
  | mysql | sqlServer => rfl

theorem gist_paging (p : Paging) (ordered : Bool) :
    Piece.gist true (d.paging p ordered).pieces = [] := by
  have hNumber (n : Int) (rest : List Piece) :
      Piece.gist false (Draft.pieces [.number n] ++ rest) = Piece.gist false rest :=
    Plain.gist_hidden (by simp) rest
  have hRows : Plain (words [.ROWS, .FETCH, .NEXT]) := plain_words rfl
  have hOnly : Plain (words [.ROWS, .ONLY]) := plain_words rfl
  have hPage (shown : Bool) : Piece.gist shown (spaced [[.keyword .OFFSET], [.number p.offset],
      words [.ROWS, .FETCH, .NEXT], [.number p.limit], words [.ROWS, .ONLY]]).pieces = [] := by
    have hOffset (rest : List Piece) :
        Piece.gist shown (Draft.pieces [.keyword .OFFSET] ++ rest) = Piece.gist false rest := by
      cases shown <;> rfl
    rw [pieces_spaced]
    simp only [List.flatMap_cons, List.flatMap_nil]
    rw [hOffset, hNumber, hRows.gist_hidden, hNumber, hOnly.gist_hidden]
    rfl
  rw [paging]
  split
  · split
    · exact hPage true
    · rw [pieces_spaced]
      simp only [List.flatMap_cons, List.flatMap_nil, List.append_nil]
      exact hPage false
  · rw [pieces_spaced]
    simp only [List.flatMap_cons, List.flatMap_nil]
    change Piece.gist false (Draft.pieces [.number p.limit] ++ .hides :: _) = _
    rw [hNumber]
    change Piece.gist false (Draft.pieces [.number p.offset] ++ []) = _
    rw [hNumber]
    rfl

theorem gist_table (w : String) (shown : Bool) (schema table : String) {p : Piece}
    (hDot : p ≠ .dot) (rest : List Piece) :
    Piece.gist shown (.table w :: (d.table schema table).pieces ++ p :: rest) =
      .table w :: .name table :: Piece.gist true (p :: rest) := by
  rw [Dialect.table]
  split
  · cases shown <;> cases p <;> first | rfl | exact absurd rfl hDot
  · rfl

/-- Behind the table of an insertion its columns come next, if it has any. -/
theorem gist_into (schema table : String) {p : Piece} {rest : List Piece} (hDot : p ≠ .dot)
    (hColumns : p = .opening → ∃ c more, rest = .name c :: more) :
    Piece.gist true (.into :: (d.table schema table).pieces ++ p :: rest) =
      .into :: .name table :: Piece.gist true (p :: rest) := by
  rw [Dialect.table]
  cases p with
  | opening =>
    obtain ⟨c, more, rfl⟩ := hColumns rfl
    split <;> rfl
  | dot => exact absurd rfl hDot
  | _ => split <;> rfl

theorem agree_patternCondition (c : Condition) (v : BoundValue) :
    Agree fun d => d.patternCondition c v := by
  refine ⟨[.name c.aliasName, .dot, .name c.column, .matches, .slot], fun d rest => ?_⟩
  cases d with
  | postgres =>
    by_cases hText : c.type = .text <;> simp only [patternCondition, matchForm, hText] <;> rfl
  | mysql | sqlite | sqlServer => rfl

theorem agree_condition (c : Condition) : Agree fun d => d.condition c := by
  have hNull {ks : List Keyword} (h : (ks.all fun k => (Part.keyword k).givesPlain) = true) :
      Plain (spaced [columnOf c.aliasName c.column, words ks]) :=
    .spaced (by simp [plain_columnOf, plain_words h])
  have hRelation (v : BoundValue) : Plain (relation c v) := .spaced (by simp [plain_columnOf])
  have hList (vs : List BoundValue) : Plain (spaced [columnOf c.aliasName c.column,
      [.keyword .IN],
      enclosed (listed (vs.map fun v => [Part.value c.column v (some c.type)]))]) := by
    have hValues : Plain (listed (vs.map fun v => [Part.value c.column v (some c.type)])) :=
      .listed (by simp)
    have hIn : (Part.keyword .IN).givesPlain = true := rfl
    exact .spaced (by simp [plain_columnOf, hValues.enclosed, hIn])
  obtain ⟨aliasName, column, type, op, operand⟩ := c
  cases operand with
  | single v =>
    cases op with
    | eq | ne =>
      cases v with
      | null => exact (hNull rfl).agree
      | _ => exact (hRelation _).agree
    | contains | startsWith => exact agree_patternCondition _ v
    | gt | ge | lt | le | within => exact (hRelation v).agree
  | list vs =>
    cases op with
    | within => exact (hList vs).agree
    | _ => exact (hRelation _).agree

theorem agree_filter (f : Filter) : Agree fun d => d.filter f := by
  induction f with
  | condition c => exact agree_condition c
  | combined left op right ihLeft ihRight =>
    have hWord : Plain [.keyword (combinator op)] := by cases op <;> simp <;> rfl
    refine ((ihLeft.append hWord.agree).append ihRight).congr fun d => ?_
    simp only [filter, pieces_spaced, pieces_append, List.flatMap_cons, List.flatMap_nil,
      List.append_nil, List.append_assoc]
  | group inner ih => exact ih.enclosed

theorem plain_sortKeys (ks : List SortKey) : Plain (sortKeys ks) := by
  refine .listed (List.forall_mem_map.mpr fun k _ => .spaced ?_)
  have hDirection : (Part.keyword (direction k.direction)).givesPlain = true := by
    cases k.direction <;> rfl
  simp [plain_columnOf, hDirection]

theorem agree_join (j : Join) : Agree fun d => d.join j := by
  have hOn : Plain (spaced [[.keyword .AS], [.name j.childAlias], [.keyword .ON],
      equals (columnOf j.parentAlias j.parentColumn) (columnOf j.childAlias j.childColumn)]) := by
    have hEquals := (plain_columnOf j.parentAlias j.parentColumn).equals
      (plain_columnOf j.childAlias j.childColumn)
    have hWords : (Part.keyword .AS).givesPlain = true ∧ (Part.keyword .ON).givesPlain = true :=
      ⟨rfl, rfl⟩
    exact .spaced (by simp [hEquals, hWords])
  refine ⟨.word "LEFT" :: .word "OUTER" :: .table "JOIN" :: .name j.childTable ::
    (spaced [[.keyword .AS], [.name j.childAlias], [.keyword .ON],
      equals (columnOf j.parentAlias j.parentColumn)
        (columnOf j.childAlias j.childColumn)]).pieces, fun d rest => ?_⟩
  have hTable := gist_table (d := d) "JOIN" true j.childSchema j.childTable
    (p := .word "AS") (by simp)
  have hGives := hOn.gives rest
  rw [pieces_spaced] at hGives ⊢
  change Piece.gist true ((spaced _).pieces ++ rest) = _
  rw [pieces_spaced]
  simp only [List.flatMap_cons, List.flatMap_nil, List.append_nil, List.append_assoc] at hGives ⊢
  refine (congrArg (fun more => .word "LEFT" :: .word "OUTER" :: more) (hTable _)).trans ?_
  exact congrArg (fun more => .word "LEFT" :: .word "OUTER" :: .table "JOIN" ::
    .name j.childTable :: more) hGives

theorem agree_joins (js : List Join) : Agree fun d => d.joins js := by
  induction js with
  | nil => exact plain_nil.agree
  | cons j js ih => exact (agree_join j).append ih

end Dialect

open Draft

theorem Entity.plain_projection (d : Dialect) (e : Entity) (items : List SelectItem) :
    Plain (e.projection d items) :=
  Dialect.plain_selectItems _

/-- A table is shown even behind what is hidden. -/
theorem Entity.agree_source (e : Entity) (js : List Join) :
    ∃ out, ∀ (d : Dialect) (shown : Bool) (rest : List Piece),
      Piece.gist shown (Draft.pieces [.keyword .FROM] ++ ((e.source d js).pieces ++ rest)) =
        out ++ Piece.gist true rest := by
  obtain ⟨out, hJoins⟩ := Dialect.agree_joins js
  refine ⟨.table "FROM" :: .name e.name :: .word "AS" :: .name e.aliasName :: out,
    fun d shown rest => ?_⟩
  have hTable := Dialect.gist_table (d := d) "FROM" shown e.schema e.name
    (p := .word "AS") (by simp) (.name e.aliasName :: (d.joins js).pieces ++ rest)
  simp only [Entity.source, List.flatMap_cons, List.flatMap_nil, List.append_nil, pieces_append,
    pieces_spaced, List.append_assoc]
  refine hTable.trans ?_
  exact congrArg (fun more => .table "FROM" :: .name e.name :: .word "AS" ::
    .name e.aliasName :: more) (hJoins d rest)

end TableGateway
