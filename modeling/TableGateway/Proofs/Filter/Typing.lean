import TableGateway.Proofs.Catalog.Lookup
import TableGateway.Proofs.Filter.Acceptance
import TableGateway.Sql.Clause

/-!
# Typed conditions

A compiled condition compares a column of its entity with what its operator takes: a list, null, a
text that is searched for, or a value that the type of the column prescribes. The clauses of a
condition have fallbacks for everything else, and none of them is ever used for a compiled filter.
-/

namespace TableGateway

/-- What a literal of a column with this type becomes. -/
inductive DataType.Prescribes : DataType → BoundValue → Prop
  | integer {n : Int} (h : Numeral.fitsInt64 n = true) : Prescribes .integer (.int n)
  | decimal (x : Binary64) : Prescribes .decimal (.double x)
  | float (x : Binary64) : Prescribes .float (.double x)
  | text (s : String) : Prescribes .text (.text s)
  | boolean (b : Bool) : Prescribes .boolean (.bool b)
  | datetime (t : Instant) : Prescribes .datetime (.instant t)
  | date (s : String) : Prescribes .date (.text s)
  | time (s : String) : Prescribes .time (.text s)
  | uuid (u : Uuid) : Prescribes .uuid (.uuid u)
  | json (j : Json) : Prescribes .json (.json j)
  | other (s : String) : Prescribes .other (.text s)

theorem DataType.Prescribes.ne_null {type : DataType} {v : BoundValue} (h : type.Prescribes v) :
    v ≠ .null := by
  rintro rfl
  cases h

namespace BoundValue

theorem ofText_eq_ok_iff {column : Column} {s : String} {v : BoundValue} :
    ofText column s = .ok v ↔ readLiteral? column.type s = some v := by
  rw [ofText]
  cases readLiteral? column.type s <;> simp

theorem prescribes_of_readLiteral? {type : DataType} {s : String} {v : BoundValue}
    (h : readLiteral? type s = some v) : type.Prescribes v := by
  rw [readLiteral?.eq_def] at h
  cases type with
  | integer =>
    obtain ⟨n, hRead, rfl⟩ := Option.map_eq_some_iff.mp h
    exact .integer (Option.filter_eq_some_iff.mp hRead).2
  | decimal =>
    obtain ⟨x, -, rfl⟩ := Option.map_eq_some_iff.mp h
    exact .decimal x
  | float =>
    obtain ⟨x, -, rfl⟩ := Option.map_eq_some_iff.mp h
    exact .float x
  | boolean =>
    obtain ⟨b, -, rfl⟩ := Option.map_eq_some_iff.mp h
    exact .boolean b
  | datetime =>
    obtain ⟨t, -, rfl⟩ := Option.map_eq_some_iff.mp h
    exact .datetime t
  | date =>
    obtain ⟨-, hText⟩ := Option.ite_none_right_eq_some.mp h
    exact Option.some.inj hText ▸ .date _
  | uuid =>
    obtain ⟨u, -, rfl⟩ := Option.map_eq_some_iff.mp h
    exact .uuid u
  | json => exact Option.some.inj h ▸ .json _
  | text => exact Option.some.inj h ▸ .text s
  | time => exact Option.some.inj h ▸ .time s
  | other => exact Option.some.inj h ▸ .other s

theorem prescribes_of_ofText {column : Column} {s : String} {v : BoundValue}
    (h : ofText column s = .ok v) : column.type.Prescribes v :=
  prescribes_of_readLiteral? (ofText_eq_ok_iff.mp h)

end BoundValue

/-- What an operator takes in a column of this type. -/
inductive Operand.Fits (type : DataType) : Comparison → Operand → Prop
  | list {vs : List BoundValue} (hSome : vs ≠ []) (hTyped : ∀ v ∈ vs, type.Prescribes v) :
      Fits type .within (.list vs)
  | null {op : Comparison} (hOp : op = .eq ∨ op = .ne) : Fits type op (.single .null)
  | pattern {op : Comparison} (hOp : op = .contains ∨ op = .startsWith) (s : String) :
      Fits type op (.single (.text s))
  | typed {op : Comparison} {v : BoundValue} (hWithin : op ≠ .within) (hContains : op ≠ .contains)
      (hStarts : op ≠ .startsWith) (hTyped : type.Prescribes v) : Fits type op (.single v)

/-- The column is one of the entity, by its own name and with its own type. -/
structure Condition.Fits (e : Entity) (c : Condition) : Prop where
  aliasName : c.aliasName = e.aliasName
  column : ∃ column ∈ e.columns, e.column? c.column = some column ∧ c.column = column.name ∧
    c.type = column.type
  operand : c.operand.Fits c.type c.operator

namespace Filter

variable {e : Entity} {column : Column} {op : Comparison} {ls : List Lexeme}

theorem Items.fits {vs : List BoundValue} (h : Items column ls vs) :
    vs ≠ [] ∧ ∀ v ∈ vs, column.type.Prescribes v := by
  induction h with
  | last _ hText =>
    rw [List.forall_mem_singleton]
    exact ⟨List.cons_ne_nil _ _, BoundValue.prescribes_of_ofText hText⟩
  | cons _ hText _ ih =>
    rw [List.forall_mem_cons]
    exact ⟨List.cons_ne_nil _ _, BoundValue.prescribes_of_ofText hText, ih.2⟩

theorem Literal.fits {s : List Char} {v : BoundValue} (hOp : op ≠ .within)
    (h : Literal column op s v) : Operand.Fits column.type op (.single v) := by
  cases h with
  | pattern hPattern => exact .pattern hPattern _
  | typed hContains hStarts hText =>
    exact .typed hOp hContains hStarts (BoundValue.prescribes_of_ofText hText)

theorem Value.fits {v : Operand} (h : Value column op ls v) : v.Fits column.type op := by
  cases h with
  | list hItems => exact .list hItems.fits.1 hItems.fits.2
  | quoted hOp hLiteral => exact hLiteral.fits hOp
  | null hOp _ => exact .null hOp
  | word hOp _ _ hLiteral => exact hLiteral.fits hOp

theorem Written.fits {c : Condition} (h : Written e ls c) : c.Fits e := by
  cases h with
  | @mk w column _ _ _ _ _ hColumn _ hValue =>
    exact
      { aliasName := rfl
        column := ⟨column, List.mem_of_find?_eq_some hColumn, Entity.column?_name hColumn, rfl, rfl⟩
        operand := hValue.fits }

theorem fits_of_compile {raw : String} {f : Filter} (h : compile e raw = .ok f) :
    ∀ c ∈ f.conditions, c.Fits e := by
  obtain ⟨-, pieces, -, -, hWritten, hConditions⟩ := conditions_occur h
  rw [hConditions]
  intro c hc
  obtain ⟨p, hp, rfl⟩ := List.mem_map.mp hc
  exact (hWritten p hp).fits

end Filter

namespace Dialect

open Draft

/-- How a condition with this operator and operand is written, where nothing stands in for
something else: a list is written for `in` alone, an operator has a symbol of its own, and only a
text becomes a pattern. -/
inductive Writes (d : Dialect) (aliasName column : String) (type : DataType) :
    Comparison → Operand → Draft → Prop
  | isNull : Writes d aliasName column type .eq (.single .null)
      (spaced [columnOf aliasName column, words [.IS, .NULL]])
  | isNotNull : Writes d aliasName column type .ne (.single .null)
      (spaced [columnOf aliasName column, words [.IS, .NOT, .NULL]])
  | within {vs : List BoundValue} (hSome : vs ≠ []) :
      Writes d aliasName column type .within (.list vs)
      (spaced [columnOf aliasName column, [.keyword .IN],
        enclosed (listed (vs.map fun v => [.value column v (some type)]))])
  | contains (s : String) : Writes d aliasName column type .contains (.single (.text s))
      ((d.matchForm type).before ++ columnOf aliasName column ++ (d.matchForm type).between ++
        .value column (.text s!"%{d.escapePattern s}%") (some .text) :: (d.matchForm type).after)
  | startsWith (s : String) : Writes d aliasName column type .startsWith (.single (.text s))
      ((d.matchForm type).before ++ columnOf aliasName column ++ (d.matchForm type).between ++
        .value column (.text s!"{d.escapePattern s}%") (some .text) :: (d.matchForm type).after)
  | relation {op : Comparison} {v : BoundValue} {symbol : String}
      (hSymbol : op.symbol? = some symbol) (hText : Part.relationText op = symbol)
      (hValue : v ≠ .null) : Writes d aliasName column type op (.single v)
      (spaced [columnOf aliasName column, [.relation op], [.value column v (some type)]])

theorem symbol?_isSome_iff {op : Comparison} :
    op.symbol?.isSome = true ↔ op ≠ .within ∧ op ≠ .contains ∧ op ≠ .startsWith := by
  cases op <;> simp [Comparison.symbol?]

theorem writes_condition (d : Dialect) {e : Entity} {c : Condition} (h : c.Fits e) :
    d.Writes c.aliasName c.column c.type c.operator c.operand (d.condition c) := by
  obtain ⟨aliasName, column, type, op, operand⟩ := c
  cases h.operand with
  | list hSome _ => exact .within hSome
  | null hOp =>
    rcases hOp with rfl | rfl
    · exact .isNull
    · exact .isNotNull
  | pattern hOp s =>
    rcases hOp with rfl | rfl
    · exact .contains s
    · exact .startsWith s
  | @typed op v hWithin hContains hStarts hTyped =>
    obtain ⟨symbol, hSymbol⟩ :=
      Option.isSome_iff_exists.mp (symbol?_isSome_iff.mpr ⟨hWithin, hContains, hStarts⟩)
    have hRelation : d.condition ⟨aliasName, column, type, op, .single v⟩ =
        Dialect.relation ⟨aliasName, column, type, op, .single v⟩ v := by
      rw [condition.eq_def]
      cases op with
      | within => exact absurd rfl hWithin
      | contains => exact absurd rfl hContains
      | startsWith => exact absurd rfl hStarts
      | eq | ne => cases v with
        | null => exact absurd rfl hTyped.ne_null
        | bool | int | double | text | uuid | instant | json => rfl
      | gt | ge | lt | le => rfl
    rw [hRelation]
    exact .relation hSymbol (by rw [Part.relationText, hSymbol, Option.getD_some]) hTyped.ne_null

end Dialect

namespace Filter

/-- Every condition of a compiled filter is typed, and for every engine its clause is the one that
belongs to its operator and operand. -/
theorem compiled_is_typed (e : Entity) (raw : String) (f : Filter) (h : compile e raw = .ok f) :
    ∀ c ∈ f.conditions, c.Fits e ∧
      ∀ d : Dialect, d.Writes c.aliasName c.column c.type c.operator c.operand (d.condition c) := by
  intro c hc
  have hFits := fits_of_compile h c hc
  exact ⟨hFits, fun d => d.writes_condition hFits⟩

theorem sampleFilter_is_typed :
    compile sampleEntity "(name EQ x Or code eq Null) AND name ct 'and'" = .ok sampleFilter ∧
      (∀ c ∈ sampleFilter.conditions, c.Fits sampleEntity) ∧
      Dialect.Writes .postgres "t_items" "Code" .text .eq (.single .null)
        (Dialect.condition .postgres ⟨"t_items", "Code", .text, .eq, .single .null⟩) := by
  have hTyped := compiled_is_typed sampleEntity _ sampleFilter compile_sampleFilter
  refine ⟨compile_sampleFilter, fun c hc => (hTyped c hc).1, ?_⟩
  exact (hTyped ⟨"t_items", "Code", .text, .eq, .single .null⟩
    (by simp [sampleFilter, conditions])).2 .postgres

end Filter

end TableGateway
