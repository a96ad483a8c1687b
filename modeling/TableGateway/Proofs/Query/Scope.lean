import TableGateway.Proofs.Filter.Acceptance
import TableGateway.Proofs.Query.Include
import TableGateway.Proofs.Sql.Mention

/-!
# Scopes of selections

A selection declares the queried entity and the entities that it includes, each under an alias of
its own. Every other name in it refers to a column of one of them. Filters, sort keys, fields and
joins find their columns each for themselves, and they agree in the scope.
-/

namespace TableGateway

variable {catalog : Catalog} {d : Dialect} {e x : Entity} {children : List Entity} {js : List Join}

/-- It refers to a column of an entity that is declared, or to all of its columns. -/
def Mention.Resolves (declared : List Entity) : Mention → Prop
  | .refers aliasName column =>
    ∃ x ∈ declared, x.aliasName = aliasName ∧ ∃ c ∈ x.columns, c.name = column
  | .everything aliasName => ∃ x ∈ declared, x.aliasName = aliasName
  | .declares .. | .bare _ => False

/-- One child after the other is declared. A column of it is then compared with a column of the
entity that was declared before it. -/
inductive Mention.Joins (d : Dialect) : Entity → List Entity → List Mention → Prop
  | nil (parent : Entity) : Joins d parent [] []
  | cons {parent child : Entity} {children : List Entity} {a b : Column} {ms : List Mention}
      (ofParent : a ∈ parent.columns) (ofChild : b ∈ child.columns)
      (rest : Joins d child children ms) :
      Joins d parent (child :: children)
        (d.declaration child.schema child.name :: .refers parent.aliasName a.name ::
          .refers child.aliasName b.name :: ms)

/-- It declares the entity and the children, and all else in it refers to what it declares. -/
def Statement.IsScoped (e : Entity) (children : List Entity) (s : Statement) : Prop :=
  ∃ before joins after,
    s.mentions = before ++ s.dialect.declaration e.schema e.name :: joins ++ after ∧
    Mention.Joins s.dialect e children joins ∧
    ∀ m ∈ before ++ after, m.Resolves (e :: children)

theorem Mention.resolves_refers {c : Column} {declared : List Entity} (hDeclared : x ∈ declared)
    (hColumn : c ∈ x.columns) : Resolves declared (.refers x.aliasName c.name) :=
  ⟨x, hDeclared, rfl, c, hColumn, rfl⟩

namespace Join

theorem Hop.joins {parent child : Entity} {j : Join} {ms : List Mention}
    (h : Hop catalog parent child j) (hRest : Mention.Joins d child children ms) :
    Mention.Joins d parent (child :: children) (j.mentions d ++ ms) := by
  cases h with
  | own isColumn _ isKey => exact .cons isColumn (List.mem_of_find?_eq_some isKey) hRest
  | back _ isColumn _ _ isKey => exact .cons (List.mem_of_find?_eq_some isKey) isColumn hRest

theorem Path.joins (h : Path catalog e children js) :
    Mention.Joins d e children (js.flatMap (Join.mentions d)) := by
  induction h with
  | nil parent => exact .nil parent
  | cons _ hop _ ih => exact hop.joins ih

theorem Path.child_mem {j : Join} (h : Path catalog e children js) (hj : j ∈ js) :
    ∃ child ∈ children, child ∈ catalog.entities ∧
      j.childSchema = child.schema ∧ j.childTable = child.name := by
  induction h with
  | nil => cases hj
  | @cons parent child children i js isEntity hop _ ih =>
    rcases List.mem_cons.mp hj with rfl | hLater
    · refine ⟨child, List.mem_cons_self, isEntity, ?_⟩
      cases hop with
      | own | back => exact ⟨rfl, rfl⟩
    · obtain ⟨x, hx, hNames⟩ := ih hLater
      exact ⟨x, List.mem_cons_of_mem child hx, hNames⟩

end Join

namespace SelectItem

/-- All of the entity, or a column of it or of a child. -/
inductive Selects (e : Entity) (children : List Entity) : SelectItem → Prop
  | everything : Selects e children (.wildcard e.aliasName)
  | one {x : Entity} {c : Column} {label : Option String} (isDeclared : x ∈ e :: children)
      (isColumn : c ∈ x.columns) :
      Selects e children (.column x.aliasName c.name label c.type)

variable {item : SelectItem} {items : List SelectItem}

theorem Selects.resolves (h : item.Selects e children) :
    item.mention.Resolves (e :: children) := by
  cases h with
  | everything => exact ⟨e, List.mem_cons_self, rfl⟩
  | one isDeclared isColumn => exact Mention.resolves_refers isDeclared isColumn

theorem Selects.expand (h : item.Selects e children) :
    ∀ i ∈ e.expand item, i.Selects e children := by
  intro i hi
  cases h with
  | everything =>
    obtain ⟨c, hc, rfl⟩ := List.mem_map.mp hi
    exact .one List.mem_cons_self hc
  | one isDeclared isColumn =>
    obtain rfl := List.mem_singleton.mp hi
    exact .one isDeclared isColumn

theorem selects_selected (h : ∀ item ∈ items, item.Selects e children) :
    ∀ item ∈ e.selected d items, item.Selects e children := by
  rw [Entity.selected]
  split
  · intro i hi
    obtain ⟨item, hItem, hExpanded⟩ := List.mem_flatMap.mp hi
    exact (h item hItem).expand i hExpanded
  · exact h

/-- Everything, a column of the entity, or a column of an entity that a join leads to. -/
inductive Found (catalog : Catalog) (e : Entity) (js : List Join) : SelectItem → Prop
  | everything : Found catalog e js (.wildcard e.aliasName)
  | own {c : Column} (isColumn : e.column? c.name = some c) : Found catalog e js (ofColumn e c)
  | included {x : Entity} {c : Column} {table : String}
      (isIncluded : included? catalog js table = some x) (isColumn : x.column? c.name = some c) :
      Found catalog e js (ofIncluded x c)

theorem found_of_read {name : String} (h : read catalog e js name = .ok item) :
    item.Found catalog e js := by
  have hOwn {column : String} (hItem : (e.column? column).map (ofColumn e) = some item) :
      item.Found catalog e js := by
    obtain ⟨c, hColumn, rfl⟩ := Option.map_eq_some_iff.mp hItem
    exact .own (Entity.column?_name hColumn)
  have hQualified {table column : String}
      (hItem : qualified? catalog e js table column = some item) : item.Found catalog e js := by
    rw [qualified?] at hItem
    split at hItem
    · exact hOwn hItem
    · obtain ⟨x, hIncluded, hItem⟩ := Option.bind_eq_some_iff.mp hItem
      obtain ⟨c, hColumn, rfl⟩ := Option.map_eq_some_iff.mp hItem
      exact .included hIncluded (Entity.column?_name hColumn)
  rw [read] at h
  split at h
  · next found hItem =>
    cases h
    split at hItem
    · exact hQualified hItem
    · exact hOwn hItem
  · cases h

theorem mem_of_mem_append {items : List SelectItem} {new : SelectItem}
    (h : item ∈ append items new) : item ∈ items ∨ item = new := by
  rw [append] at h
  split at h
  · exact .inl h
  · rw [List.mem_append, List.mem_singleton] at h
    exact h

theorem mem_of_mem_foldl_append {given : List SelectItem} (h : item ∈ items.foldl append given) :
    item ∈ given ∨ item ∈ items := by
  induction items generalizing given with
  | nil => exact .inl h
  | cons new items ih =>
    rcases ih h with hGiven | hLater
    · rcases mem_of_mem_append hGiven with hOld | rfl
      · exact .inl hOld
      · exact .inr List.mem_cons_self
    · exact .inr (List.mem_cons_of_mem new hLater)

theorem found_of_compile {raw : String} (h : compile catalog e js raw = .ok items) :
    ∀ item ∈ items, item.Found catalog e js := by
  intro item hItem
  rw [compile] at h
  split at h
  · cases h
    obtain rfl := List.mem_singleton.mp hItem
    exact .everything
  · obtain ⟨found, hFound, h⟩ := Outcome.bind_eq_ok_iff.mp h
    cases h
    have hMem := (mem_of_mem_foldl_append hItem).resolve_left List.not_mem_nil
    obtain ⟨name, -, hRead⟩ := Outcome.exists_of_mem_mapM hFound item hMem
    exact found_of_read hRead

theorem mem_of_included? {table : String}
    (hAlone : ∀ child ∈ children, child ∈ catalog.entities → child.Alone catalog)
    (hPath : Join.Path catalog e children js) (h : included? catalog js table = some x) :
    x ∈ children := by
  obtain ⟨j, hFound, hEntity⟩ := Option.bind_eq_some_iff.mp h
  obtain ⟨child, hChild, hIn, hSchema, hName⟩ := hPath.child_mem (List.mem_of_find?_eq_some hFound)
  rw [hSchema, hName] at hEntity
  rw [hAlone child hChild hIn x hEntity]
  exact hChild

theorem selects_of_compile {raw : String} (hValid : catalog.Valid)
    (hSchemas : (catalog.schemas.map fun s => Text.folded s.name).Nodup)
    (hPath : Join.Path catalog e children js) (h : compile catalog e js raw = .ok items) :
    ∀ item ∈ items, item.Selects e children := by
  have hAlone : ∀ child ∈ children, child ∈ catalog.entities → child.Alone catalog := by
    intro child _ hIn x hx
    rw [hValid.entity?_self hSchemas hIn] at hx
    exact (Option.some.inj hx).symm
  intro item hItem
  cases found_of_compile h item hItem with
  | everything => exact .everything
  | own isColumn => exact .one List.mem_cons_self (List.mem_of_find?_eq_some isColumn)
  | included isIncluded isColumn =>
    exact .one (List.mem_cons_of_mem e (mem_of_included? hAlone hPath isIncluded))
      (List.mem_of_find?_eq_some isColumn)

end SelectItem

theorem Filter.resolves_of_compile {raw : String} {f : Filter} (h : compile e raw = .ok f) :
    ∀ c ∈ f.conditions, c.mention.Resolves (e :: children) := by
  obtain ⟨-, pieces, -, -, hWritten, hConditions⟩ := conditions_occur h
  rw [hConditions, List.forall_mem_map]
  rintro ⟨ls, c⟩ hPiece
  obtain ⟨-, hColumn, -, -⟩ := hWritten _ hPiece
  exact Mention.resolves_refers List.mem_cons_self (List.mem_of_find?_eq_some hColumn)

namespace SortKey

variable {k : SortKey} {ks : List SortKey}

theorem resolves_of_read {key : String} (h : read e key = .ok k) :
    k.mention.Resolves (e :: children) := by
  obtain ⟨⟨name, direction⟩, -, h⟩ := Outcome.bind_eq_ok_iff.mp h
  dsimp only at h
  split at h
  · cases h
  · rw [onColumn] at h
    split at h
    · cases h
    · split at h
      · next c hColumn =>
        cases h
        exact Mention.resolves_refers List.mem_cons_self (List.mem_of_find?_eq_some hColumn)
      · cases h

theorem resolves_of_compile {raw : String} (h : compile e raw = .ok ks) :
    ∀ k ∈ ks, k.mention.Resolves (e :: children) := by
  rw [compile] at h
  split at h
  · cases h
    exact nofun
  · intro k hk
    obtain ⟨key, -, hRead⟩ := Outcome.exists_of_mem_mapM h k hk
    exact resolves_of_read hRead

theorem resolves_ordering (h : ∀ k ∈ ks, k.mention.Resolves (e :: children)) :
    ∀ k ∈ e.ordering ks, k.mention.Resolves (e :: children) :=
  Entity.forall_mem_ordering h fun _ hKey =>
    Mention.resolves_refers List.mem_cons_self (List.mem_of_find?_eq_some hKey)

end SortKey

namespace Draft

/-- All that it mentions refers to what is declared. -/
structure RefersTo (d : Dialect) (declared : List Entity) (a : Draft) : Prop where
  legible : Legible d a
  mentions : ∃ ms, a.Mentions ms ∧ ∀ m ∈ ms, m.Resolves declared

variable {declared : List Entity} {drafts : List Draft}

theorem RefersTo.of_map {α : Type} {a : Draft} {f : α → Mention} {xs : List α}
    (hLegible : Legible d a) (hMentions : a.Mentions (xs.map f))
    (h : ∀ y ∈ xs, (f y).Resolves declared) : RefersTo d declared a :=
  ⟨hLegible, xs.map f, hMentions, List.forall_mem_map.mpr h⟩

theorem refersTo_of_signs {a : Draft} (hLegible : Legible d a) (h : a.signs = []) :
    RefersTo d declared a :=
  ⟨hLegible, [], mentions_of_signs h, nofun⟩

theorem exists_reads (h : ∀ a ∈ drafts, RefersTo d declared a) :
    ∃ ms, Mention.Reads (drafts.flatMap signs) ms ∧ ∀ m ∈ ms, m.Resolves declared := by
  induction drafts with
  | nil => exact ⟨[], Mention.reads_nil, nofun⟩
  | cons a drafts ih =>
    rw [List.forall_mem_cons] at h
    obtain ⟨ms, hHead, hFirst⟩ := h.1.mentions
    obtain ⟨ns, hReads, hOthers⟩ := ih h.2
    exact ⟨ms ++ ns, Mention.Reads.append hHead hReads,
      List.forall_mem_append.mpr ⟨hFirst, hOthers⟩⟩

theorem RefersTo.spaced (h : ∀ a ∈ drafts, RefersTo d declared a) :
    RefersTo d declared (spaced drafts) := by
  obtain ⟨ms, hReads, hResolves⟩ := exists_reads h
  refine ⟨.spaced fun a ha => (h a ha).legible, ms, ?_, hResolves⟩
  rw [Mentions, signs_spaced]
  exact hReads

end Draft

namespace Statement

open Draft

/-- A selection mentions its fields, then its source, and then what stands behind the source. -/
theorem mentions_selection {fields : Draft} {behind : List Draft} {before after : List Mention}
    (e : Entity) (js : List Join) (hFields : Legible d fields) (hBehind : ∀ a ∈ behind, Legible d a)
    (hBefore : fields.Mentions before) (hAfter : Mention.Reads (behind.flatMap signs) after) :
    mentions ⟨d, spaced ([[.keyword .SELECT], fields, [.keyword .FROM], e.source d js] ++ behind)⟩ =
      before ++ d.declaration e.schema e.name :: js.flatMap (Join.mentions d) ++ after := by
  have hLegible : Legible d
      (spaced ([[.keyword .SELECT], fields, [.keyword .FROM], e.source d js] ++ behind)) := by
    refine .spaced ?_
    rw [List.forall_mem_append]
    exact ⟨by simp [hFields, Entity.legible_source, Part.isReadable], hBehind⟩
  have hSigns : (spaced ([[.keyword .SELECT], fields, [.keyword .FROM], e.source d js] ++
      behind)).signs =
        fields.signs ++ (spaced [[.keyword .FROM], e.source d js]).signs ++
          behind.flatMap signs := by
    rw [signs_spaced, signs_spaced, List.flatMap_append]
    simp only [List.flatMap_cons, List.flatMap_nil, List.append_nil, List.append_assoc]
    rfl
  refine mentions_eq hLegible ?_
  rw [Mentions, hSigns]
  exact Mention.Reads.append (Mention.Reads.append hBefore (e.mentions_source d js)) hAfter

theorem isScoped_selection {fields : Draft} {behind : List Draft}
    (hPath : Join.Path catalog e children js) (hFields : RefersTo d (e :: children) fields)
    (hBehind : ∀ a ∈ behind, RefersTo d (e :: children) a) :
    IsScoped e children
      ⟨d, spaced ([[.keyword .SELECT], fields, [.keyword .FROM], e.source d js] ++ behind)⟩ := by
  obtain ⟨before, hBefore, hFirst⟩ := hFields.mentions
  obtain ⟨after, hAfter, hLast⟩ := exists_reads hBehind
  have hMentions := mentions_selection e js hFields.legible
    (fun a ha => (hBehind a ha).legible) hBefore hAfter
  exact ⟨before, js.flatMap (Join.mentions d), after, hMentions, hPath.joins,
    List.forall_mem_append.mpr ⟨hFirst, hLast⟩⟩

theorem refersTo_predicate {filter : Option Filter}
    (h : ∀ f ∈ filter, ∀ c ∈ f.conditions, c.mention.Resolves (e :: children)) :
    ∀ a ∈ predicate d filter, RefersTo d (e :: children) a := by
  cases filter with
  | none => exact nofun
  | some f =>
    rw [predicate, Option.toList_some, List.map_singleton, List.forall_mem_singleton]
    refine .spaced ?_
    rw [List.forall_mem_cons, List.forall_mem_singleton]
    exact ⟨refersTo_of_signs (legible_singleton.mpr rfl) rfl,
      .of_map (Dialect.legible_filter f) (Dialect.mentions_filter f) (h f rfl)⟩

theorem refersTo_orderClause {keys : List SortKey}
    (h : ∀ k ∈ keys, k.mention.Resolves (e :: children)) :
    ∀ a ∈ orderClause keys, RefersTo d (e :: children) a := by
  rw [orderClause]
  split
  · exact List.forall_mem_nil _
  · rw [List.forall_mem_singleton]
    refine .spaced ?_
    rw [List.forall_mem_cons, List.forall_mem_singleton]
    exact ⟨refersTo_of_signs (legible_words _) rfl,
      .of_map (Dialect.legible_sortKeys keys) (Dialect.mentions_sortKeys keys) h⟩

theorem refersTo_page {front : List Draft} {keys : List SortKey} (p : Paging)
    (hFront : ∀ a ∈ front, RefersTo d (e :: children) a)
    (hKeys : ∀ k ∈ keys, k.mention.Resolves (e :: children)) :
    ∀ a ∈ front ++ (orderClause keys ++ [d.paging p !keys.isEmpty]),
      RefersTo d (e :: children) a := by
  have hPaging : RefersTo d (e :: children) (d.paging p !keys.isEmpty) :=
    ⟨d.legible_paging p _, [], d.mentions_paging p _, nofun⟩
  rw [List.forall_mem_append, List.forall_mem_append, List.forall_mem_singleton]
  exact ⟨hFront, refersTo_orderClause hKeys, hPaging⟩

theorem refersTo_count {declared : List Entity} :
    RefersTo d declared (.keyword .COUNT :: enclosed [.mark .star]) where
  legible := by simp [enclosed, legible_cons_cons, Apart, Part.isSeparator, Part.isReadable]
  mentions := ⟨[], Mention.reads_star, nofun⟩

theorem refersTo_key {key : Column} (v : BoundValue) (hKey : key ∈ e.columns) :
    ∀ a ∈ [[Part.keyword .WHERE],
      equals (columnOf e.aliasName key.name) [.value key.name v (some key.type)]],
      RefersTo d (e :: children) a := by
  have hEquals : RefersTo d (e :: children)
      (equals (columnOf e.aliasName key.name) [.value key.name v (some key.type)]) := by
    refine ⟨(legible_columnOf ..).equals (legible_singleton.mpr rfl),
      [.refers e.aliasName key.name], Mention.reads_reference e.aliasName key.name, ?_⟩
    rw [List.forall_mem_singleton]
    exact Mention.resolves_refers List.mem_cons_self hKey
  rw [List.forall_mem_cons, List.forall_mem_singleton]
  exact ⟨refersTo_of_signs (legible_singleton.mpr rfl) rfl, hEquals⟩

end Statement

namespace QueryPlan

variable {limits : PagingLimits} {o : QueryOptions} {q : QueryPlan}

/-- A compiled plan consists of compiled parts. -/
theorem compile_parts_iff :
    compile catalog e limits o = .ok q ↔
      (o.includes.map (Join.compile catalog e)).getD (.ok []) = .ok q.joins ∧
      SelectItem.compile catalog e q.joins (o.fields.getD "*") = .ok q.fields ∧
      o.filter.mapM (Filter.compile e) = .ok q.filter ∧
      (o.sort.map (SortKey.compile e)).getD (.ok []) = .ok q.sort ∧
      .compile limits o.limit o.offset = q.paging := by
  simp only [compile, liftQuery, Outcome.bind_eq_ok_iff]
  constructor
  · rintro ⟨joins, hJoins, fields, hFields, filter, hFilter, sort, hSort, hPlan⟩
    cases hPlan
    exact ⟨hJoins, Outcome.mapError_eq_ok_iff.mp hFields, Outcome.mapError_eq_ok_iff.mp hFilter,
      Outcome.mapError_eq_ok_iff.mp hSort, rfl⟩
  · rintro ⟨hJoins, hFields, hFilter, hSort, hPaging⟩
    exact ⟨q.joins, hJoins, q.fields, Outcome.mapError_eq_ok_iff.mpr hFields, q.filter,
      Outcome.mapError_eq_ok_iff.mpr hFilter, q.sort, Outcome.mapError_eq_ok_iff.mpr hSort,
      congrArg Except.ok (by rw [hPaging])⟩

theorem compile_eq_ok (h : compile catalog e limits o = .ok q) :
    (o.includes.map (Join.compile catalog e)).getD (.ok []) = .ok q.joins ∧
      SelectItem.compile catalog e q.joins (o.fields.getD "*") = .ok q.fields ∧
      o.filter.mapM (Filter.compile e) = .ok q.filter ∧
      (o.sort.map (SortKey.compile e)).getD (.ok []) = .ok q.sort := by
  obtain ⟨hJoins, hFields, hFilter, hSort, -⟩ := compile_parts_iff.mp h
  exact ⟨hJoins, hFields, hFilter, hSort⟩

theorem exists_alone_path (hValid : catalog.Valid) (hEntity : e ∈ catalog.entities)
    (h : compile catalog e limits o = .ok q) :
    ∃ children, Join.Path catalog e children q.joins ∧
      (∀ child ∈ children, child.Alone catalog) ∧
      ((e :: children).map fun x => Text.lowercase x.name).Nodup := by
  obtain hNone | ⟨raw, -, hRaw⟩ := Outcome.getD_map_eq_ok (compile_eq_ok h).1
  · rw [hNone]
    exact ⟨[], .nil e, by simp, by simp⟩
  · exact Join.path_of_compile hValid hEntity hRaw

theorem exists_path (hValid : catalog.Valid) (hEntity : e ∈ catalog.entities)
    (h : compile catalog e limits o = .ok q) :
    ∃ children, Join.Path catalog e children q.joins ∧
      ((e :: children).map fun x => Text.lowercase x.name).Nodup := by
  obtain ⟨children, hPath, -, hNodup⟩ := exists_alone_path hValid hEntity h
  exact ⟨children, hPath, hNodup⟩

theorem resolves_filter (h : compile catalog e limits o = .ok q) :
    ∀ f ∈ q.filter, ∀ c ∈ f.conditions, c.mention.Resolves (e :: children) := by
  obtain ⟨-, -, hFilter, -⟩ := compile_eq_ok h
  intro f hf
  obtain ⟨raw, -, hRaw⟩ := Outcome.exists_of_mem_option_mapM hFilter f hf
  exact Filter.resolves_of_compile hRaw

theorem resolves_sort (h : compile catalog e limits o = .ok q) :
    ∀ k ∈ q.sort, k.mention.Resolves (e :: children) := by
  obtain ⟨-, -, -, hSort⟩ := compile_eq_ok h
  obtain hNone | ⟨raw, -, hRaw⟩ := Outcome.getD_map_eq_ok hSort
  · rw [hNone]
    exact List.forall_mem_nil _
  · exact SortKey.resolves_of_compile hRaw

theorem nodup_aliases {xs : List Entity} (h : (xs.map fun x => Text.lowercase x.name).Nodup) :
    (xs.map fun x => Text.lowercase x.aliasName).Nodup := by
  have hPrefix : Function.Injective fun s : String => "t_" ++ s := fun a b hEq =>
    String.append_right_inj "t_" |>.mp hEq
  have hAliases : (xs.map fun x => Text.lowercase x.aliasName) =
      (xs.map fun x => Text.lowercase x.name).map fun s => "t_" ++ s := by
    rw [List.map_map]
    exact List.map_congr_left fun x _ => Text.lowercase_prefixed x.name
  rw [hAliases]
  exact h.map hPrefix

/-- In all statements that read by a compiled query, on every engine, each name is declared or
refers to a column of an entity that is declared, and no two declared aliases agree up to case. -/
theorem selections_are_scoped {text : String} (hLoad : Catalog.load text = .ok catalog)
    (hSchemas : (catalog.schemas.map fun s => Text.folded s.name).Nodup)
    (hEntity : e ∈ catalog.entities) (hCompile : compile catalog e limits o = .ok q) :
    ∃ children, Join.Path catalog e children q.joins ∧
      ((e :: children).map fun x => Text.lowercase x.aliasName).Nodup ∧
      ∀ d, (Statement.list d e q).select.IsScoped e children ∧
        (Statement.list d e q).count.IsScoped e children ∧
        ∀ id s, Statement.read d e q id = .ok s → s.IsScoped e children := by
  have hValid := Catalog.valid_of_load hLoad
  obtain ⟨children, hPath, hNodup⟩ := exists_path hValid hEntity hCompile
  refine ⟨children, hPath, nodup_aliases hNodup, fun d => ?_⟩
  have hSelects := SelectItem.selects_of_compile hValid hSchemas hPath (compile_eq_ok hCompile).2.1
  have hFields : Draft.RefersTo d (e :: children) (e.projection d q.fields) :=
    .of_map (e.legible_projection d q.fields) (e.mentions_projection d q.fields)
      fun item hItem => (SelectItem.selects_selected hSelects item hItem).resolves
  have hWhere : ∀ a ∈ Statement.predicate d q.filter, Draft.RefersTo d (e :: children) a :=
    Statement.refersTo_predicate (resolves_filter hCompile)
  have hKeys : ∀ k ∈ e.ordering q.sort, k.mention.Resolves (e :: children) :=
    SortKey.resolves_ordering (resolves_sort hCompile)
  refine ⟨?_, ?_, ?_⟩
  · exact Statement.isScoped_selection hPath hFields (Statement.refersTo_page q.paging hWhere hKeys)
  · exact Statement.isScoped_selection hPath Statement.refersTo_count hWhere
  · intro id s hRead
    obtain ⟨key, v, hKey, -, rfl⟩ := Statement.read_eq_ok hRead
    exact Statement.isScoped_selection hPath hFields
      (Statement.refersTo_key v (List.mem_of_find?_eq_some hKey))

/-- The numbers of the customers with those of their orders, by the number of the customer. -/
def sampleOptions : QueryOptions :=
  { fields := some "id, ORDERS.customerid", sort := some "ID:desc", includes := some "Orders" }

def samplePlan : QueryPlan where
  filter := none
  sort := [⟨"t_customers", "ID", .descending⟩]
  fields := [.column "t_customers" "ID" none .integer,
    .column "t_orders" "CustomerID" (some "orders.CustomerID") .integer]
  joins := [.between (Join.sampleCustomers "sales") Join.sampleOrders Join.sampleId
    Join.sampleReference]
  paging := ⟨25, 0⟩

theorem samplePlan_is_scoped :
    Catalog.load Join.sampleSchemas.toText = .ok Join.sampleSchemas ∧
    (Join.sampleSchemas.schemas.map fun s => Text.folded s.name).Nodup ∧
    Join.sampleCustomers "sales" ∈ Join.sampleSchemas.entities ∧
    compile Join.sampleSchemas (Join.sampleCustomers "sales") {} sampleOptions = .ok samplePlan ∧
    ∃ children,
      Join.Path Join.sampleSchemas (Join.sampleCustomers "sales") children samplePlan.joins ∧
      ∀ d, (Statement.list d (Join.sampleCustomers "sales") samplePlan).select.IsScoped
        (Join.sampleCustomers "sales") children := by
  have hSchemas : (Join.sampleSchemas.schemas.map fun s => Text.folded s.name).Nodup := by decide
  have hEntity : Join.sampleCustomers "sales" ∈ Join.sampleSchemas.entities := by decide
  have hCompile : compile Join.sampleSchemas (Join.sampleCustomers "sales") {} sampleOptions =
      .ok samplePlan := rfl
  obtain ⟨children, hPath, -, hScoped⟩ :=
    selections_are_scoped Join.load_sampleSchemas hSchemas hEntity hCompile
  exact ⟨Join.load_sampleSchemas, hSchemas, hEntity, hCompile, children, hPath,
    fun d => (hScoped d).1⟩

end QueryPlan

end TableGateway
