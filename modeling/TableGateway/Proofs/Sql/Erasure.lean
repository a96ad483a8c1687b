import TableGateway.Sql.Mutation

/-!
# Texts without values

An erased draft has null wherever the draft has a value, and its text is the same. So two requests
that differ in values only, be they literals, members of a body or ids, have the same texts.
-/

namespace TableGateway

/-- Names for placeholders depend on the names before them only. -/
theorem Parameters.freshName_congr {ps qs : Parameters} (h : ps.names = qs.names) (hint : String) :
    ps.freshName hint = qs.freshName hint := by
  have hSize : ps.size = qs.size := by
    simpa [Parameters.names, Parameters.size] using congrArg List.length h
  rw [freshName, freshName, h, hSize]

def Part.erased : Part → Part
  | .value hint _ type => .value hint .null type
  | p => p

namespace Draft

variable {d : Dialect}

def erased (a : Draft) : Draft := a.map Part.erased

theorem write_erased {ps qs : Parameters} (h : ps.names = qs.names) (a : Draft) :
    a.erased.write d qs = a.write d ps := by
  induction a generalizing ps qs with
  | nil => rfl
  | cons p rest ih =>
    cases p with
    | value hint v type =>
      have hSize : qs.size = ps.size := by
        simpa [Parameters.names, Parameters.size] using congrArg List.length h.symm
      have hNames : (ps.push hint v).names = (qs.push hint .null).names := by
        rw [Parameters.names_push, Parameters.names_push, Parameters.freshName_congr h, h]
      have hErased : Draft.erased (.value hint v type :: rest) =
          .value hint .null type :: erased rest := rfl
      rw [hErased, write, write, Part.write, Part.write, Parameters.freshName_congr h, hSize]
      exact congrArg (_ ++ ·) (ih hNames)
    | keyword | mark | relation | name | number => exact congrArg (_ ++ ·) (ih h)

theorem toText_erased (a : Draft) : a.erased.toText d = a.toText d :=
  congrArg String.ofList (write_erased rfl a)

theorem toText_eq {a b : Draft} (h : a.erased = b.erased) : a.toText d = b.toText d := by
  rw [← toText_erased a, h, toText_erased]

@[simp] theorem erased_append (a b : Draft) : (a ++ b).erased = a.erased ++ b.erased :=
  List.map_append

theorem erased_intercalate {separator : Draft} (h : separator.erased = separator)
    (drafts : List Draft) :
    Draft.erased (separator.intercalate drafts) = separator.intercalate (drafts.map erased) := by
  induction drafts with
  | nil => rfl
  | cons a rest ih =>
    cases rest with
    | nil => simp
    | cons b rest =>
      simp only [List.map_cons, List.intercalate_cons_cons, erased_append, h] at ih ⊢
      rw [ih]

theorem erased_spaced (drafts : List Draft) : (spaced drafts).erased = spaced (drafts.map erased) :=
  erased_intercalate rfl drafts

theorem erased_listed (drafts : List Draft) : (listed drafts).erased = listed (drafts.map erased) :=
  erased_intercalate rfl drafts

theorem erased_enclosed (a : Draft) : (enclosed a).erased = enclosed a.erased := by
  rw [enclosed, erased_append]
  rfl

theorem erased_equals (a b : Draft) : (equals a b).erased = equals a.erased b.erased :=
  erased_spaced [a, [.relation .eq], b]

end Draft

open Draft

variable {d : Dialect} {e : Entity}

/-- Operands with other values. Where an operator may compare with null, both are null or neither,
and lists have the same length. -/
inductive Operand.Alike (op : Comparison) : Operand → Operand → Prop
  | single {v w} : (op.allowsNull = true → (v = .null ↔ w = .null)) →
      Alike op (.single v) (.single w)
  | list {vs ws} : vs.length = ws.length → Alike op (.list vs) (.list ws)

/-- Filters that differ in the values of their conditions only. -/
inductive Filter.Alike : Filter → Filter → Prop
  | condition {aliasName column type op o o'} : Operand.Alike op o o' →
      Alike (.condition ⟨aliasName, column, type, op, o⟩)
        (.condition ⟨aliasName, column, type, op, o'⟩)
  | combined {f g f' g' op} : Alike f f' → Alike g g' →
      Alike (.combined f op g) (.combined f' op g')
  | group {f f'} : Alike f f' → Alike (.group f) (.group f')

structure QueryPlan.Alike (q q' : QueryPlan) : Prop where
  filter : Option.Rel Filter.Alike q.filter q'.filter
  sort : q.sort = q'.sort
  fields : q.fields = q'.fields
  joins : q.joins = q'.joins
  paging : q.paging = q'.paging

namespace Dialect

theorem erased_relation (c : Condition) (v : BoundValue) :
    (relation c v).erased =
      spaced [columnOf c.aliasName c.column, [.relation c.operator],
        [.value c.column .null (some c.type)]] :=
  erased_spaced _

theorem erased_patternCondition (d : Dialect) (c : Condition) (v : BoundValue) :
    (d.patternCondition c v).erased =
      (d.matchForm c.type).before.erased ++ columnOf c.aliasName c.column ++
        (d.matchForm c.type).between.erased ++
          .value c.column .null (some .text) :: (d.matchForm c.type).after.erased := by
  rw [patternCondition, erased_append, erased_append, erased_append]
  rfl

theorem erased_condition {aliasName column : String} {type : DataType} {op : Comparison}
    {o o' : Operand} (h : o.Alike op o') :
    (d.condition ⟨aliasName, column, type, op, o⟩).erased =
      (d.condition ⟨aliasName, column, type, op, o'⟩).erased := by
  cases h with
  | @single v w hNull =>
    cases op with
    | eq | ne =>
      have hBoth : v = .null ↔ w = .null := hNull rfl
      cases v with
      | null => rw [hBoth.mp rfl]
      | _ =>
        cases w with
        | null => exact absurd (hBoth.mpr rfl) nofun
        | _ => exact (erased_relation _ _).trans (erased_relation _ _).symm
    | contains | startsWith =>
      exact (erased_patternCondition d _ v).trans (erased_patternCondition d _ w).symm
    | gt | ge | lt | le | within => exact (erased_relation _ v).trans (erased_relation _ w).symm
  | @list vs ws hLength =>
    cases op with
    | within =>
      have hList (us : List BoundValue) :
          (d.condition ⟨aliasName, column, type, .within, .list us⟩).erased =
            spaced [columnOf aliasName column, [.keyword .IN],
              enclosed (listed (List.replicate us.length [.value column .null (some type)]))] := by
        rw [condition, erased_spaced, ← List.map_const']
        simp only [List.map_cons, List.map_nil, erased_enclosed, erased_listed, List.map_map]
        rfl
      rw [hList, hList, hLength]
    | _ => exact (erased_relation _ _).trans (erased_relation _ _).symm

theorem erased_filter {f g : Filter} (h : f.Alike g) :
    (d.filter f).erased = (d.filter g).erased := by
  induction h with
  | condition h => exact erased_condition h
  | combined _ _ ihLeft ihRight =>
    rw [filter, filter, erased_spaced, erased_spaced]
    simp only [List.map_cons, ihLeft, ihRight]
  | group _ ih => rw [filter, filter, erased_enclosed, erased_enclosed, ih]

end Dialect

namespace Statement

theorem erased_predicate {filter filter' : Option Filter}
    (h : Option.Rel Filter.Alike filter filter') :
    (predicate d filter).map erased = (predicate d filter').map erased := by
  cases h with
  | none => rfl
  | some h =>
    simp only [predicate, Option.toList_some, List.map_cons, List.map_nil, erased_spaced,
      Dialect.erased_filter h]

theorem list_text_eq {q q' : QueryPlan} (h : q.Alike q') :
    (list d e q).select.text = (list d e q').select.text ∧
      (list d e q).count.text = (list d e q').count.text := by
  constructor
  · refine toText_eq ?_
    simp only [list, erased_spaced, List.map_append, erased_predicate h.filter, h.sort, h.fields,
      h.joins, h.paging]
  · refine toText_eq ?_
    simp only [list, erased_spaced, List.map_append, erased_predicate h.filter, h.joins]

end Statement

end TableGateway
