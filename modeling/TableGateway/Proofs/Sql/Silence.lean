import TableGateway.Proofs.Sql.Clause
import TableGateway.Proofs.Sql.Site

/-!
# Drafts without values

Most clauses only name things. They bring no parameter, begin no predicate, and leave the sites of
all others as they are. The values of a filter stand right behind their columns.
-/

namespace TableGateway

/-- Neither a value nor the start of a predicate. -/
def Part.isSilent : Part → Bool
  | .value _ _ _ => false
  | .keyword k => k ≠ .WHERE
  | _ => true

namespace Draft

variable {d : Dialect} {a b : Draft}

def Silent (a : Draft) : Prop := ∀ p ∈ a, p.isSilent = true

@[simp] theorem landmarks_append (a b : Draft) :
    Draft.landmarks (a ++ b) = a.landmarks ++ b.landmarks :=
  List.filterMap_append

@[simp] theorem landmarks_spaced (drafts : List Draft) :
    (spaced drafts).landmarks = drafts.flatMap landmarks :=
  filterMap_intercalate rfl drafts

@[simp] theorem landmarks_listed (drafts : List Draft) :
    (listed drafts).landmarks = drafts.flatMap landmarks :=
  filterMap_intercalate rfl drafts

@[simp] theorem landmarks_keyword {k : Keyword} (h : k ≠ .WHERE) :
    Draft.landmarks [.keyword k] = [] := by
  cases k with
  | WHERE => exact absurd rfl h
  | _ => rfl

@[simp] theorem landmarks_where : Draft.landmarks [.keyword .WHERE] = [.predicate] := rfl

@[simp] theorem landmarks_name (s : String) : Draft.landmarks [.name s] = [.name s] := rfl

@[simp] theorem landmarks_value (hint : String) (v : BoundValue) (type : Option DataType) :
    Draft.landmarks [.value hint v type] = [.value v] := rfl

@[simp] theorem landmarks_columnOf (aliasName column : String) :
    (columnOf aliasName column).landmarks = [.name aliasName, .name column] := rfl

@[simp] theorem landmarks_equals (a b : Draft) :
    (equals a b).landmarks = a.landmarks ++ b.landmarks := by
  have hRelation : Draft.landmarks [.relation .eq] = [] := rfl
  simp [equals, hRelation]

@[simp] theorem landmarks_words {ks : List Keyword} (h : .WHERE ∉ ks) :
    (words ks).landmarks = [] := by
  rw [words, landmarks_spaced, List.flatMap_map, List.flatMap_eq_nil_iff]
  rintro k hk
  exact landmarks_keyword fun hEq => h (hEq ▸ hk)

@[simp] theorem landmarks_enclosed (a : Draft) : (enclosed a).landmarks = a.landmarks := by
  rw [enclosed, landmarks_append]
  exact List.append_nil a.landmarks

theorem Silent.landmarks (h : Silent a) : ∀ l ∈ a.landmarks, ∃ s, l = .name s := by
  intro l hl
  obtain ⟨p, hp, hLandmark⟩ := List.mem_filterMap.mp hl
  have hSilent := h p hp
  cases p with
  | name s => exact ⟨s, (Option.some.inj hLandmark).symm⟩
  | value => exact absurd hSilent (by simp [Part.isSilent])
  | keyword k =>
    cases k with
    | WHERE => exact absurd hSilent (by decide)
    | _ => cases hLandmark
  | mark | relation | number => cases hLandmark

theorem Silent.filterMap_value? (h : Silent a) : a.landmarks.filterMap Landmark.value? = [] := by
  rw [List.filterMap_eq_nil_iff]
  intro l hl
  obtain ⟨s, rfl⟩ := h.landmarks l hl
  rfl

@[simp] theorem silent_nil : Silent [] := by simp [Silent]

@[simp] theorem silent_cons {p : Part} : Silent (p :: a) ↔ p.isSilent = true ∧ Silent a :=
  List.forall_mem_cons

@[simp] theorem silent_append : Silent (a ++ b) ↔ Silent a ∧ Silent b :=
  List.forall_mem_append

theorem Silent.spaced {drafts : List Draft} (h : ∀ a ∈ drafts, Silent a) : Silent (spaced drafts) :=
  forall_mem_intercalate (by simp [Part.isSilent]) h

theorem Silent.listed {drafts : List Draft} (h : ∀ a ∈ drafts, Silent a) : Silent (listed drafts) :=
  forall_mem_intercalate (by simp [Part.isSilent]) h

theorem Silent.enclosed (h : Silent a) : Silent (enclosed a) := by
  simp [Draft.enclosed, h, Part.isSilent]

theorem silent_words {ks : List Keyword} (h : .WHERE ∉ ks) : Silent (words ks) := by
  refine .spaced ?_
  simp only [List.forall_mem_map]
  intro k hk
  have hNe : k ≠ .WHERE := fun hEq => h (hEq ▸ hk)
  simp [Part.isSilent, hNe]

end Draft

namespace Landmark

variable {isPredicate : Bool} {ls ms : List (Landmark BoundValue)}
  {meant more : List (Site × BoundValue)}

/-- The landmarks bring these values to these sites, whatever stands before and after them. -/
def Brings (isPredicate : Bool) (ls : List (Landmark BoundValue))
    (meant : List (Site × BoundValue)) : Prop :=
  ∀ column, ∃ column', ∀ rest,
    sites isPredicate column (ls ++ rest) = meant ++ sites isPredicate column' rest

theorem Brings.append (hLeft : Brings isPredicate ls meant) (hRight : Brings isPredicate ms more) :
    Brings isPredicate (ls ++ ms) (meant ++ more) := by
  intro column
  obtain ⟨column', hLeft⟩ := hLeft column
  obtain ⟨column'', hRight⟩ := hRight column'
  refine ⟨column'', fun rest => ?_⟩
  rw [List.append_assoc, hLeft, hRight, List.append_assoc]

theorem brings_of_names (h : ∀ l ∈ ls, ∃ s, l = .name s) : Brings isPredicate ls [] := by
  induction ls with
  | nil => exact fun column => ⟨column, fun _ => rfl⟩
  | cons l ls ih =>
    rw [List.forall_mem_cons] at h
    obtain ⟨⟨s, rfl⟩, hRest⟩ := h
    exact fun _ => ih hRest s

theorem brings_value (column : String) (v : BoundValue) :
    Brings isPredicate [.name column, .value v] [(site isPredicate column, v)] :=
  fun _ => ⟨column, fun _ => rfl⟩

theorem Brings.sites_eq (h : Brings isPredicate ls meant) (column : String) :
    sites isPredicate column ls = meant := by
  obtain ⟨column', hSites⟩ := h column
  simpa [sites] using hSites []

/-- A statement assigns what it brings before its predicate and compares what it brings there. -/
theorem Brings.sites_predicate (hLeft : Brings false ls meant) (hRight : Brings true ms more)
    (column : String) : sites false column (ls ++ .predicate :: ms) = meant ++ more := by
  obtain ⟨column', hLeft⟩ := hLeft column
  rw [hLeft, sites, hRight.sites_eq]

end Landmark

theorem Draft.Silent.brings {a : Draft} {isPredicate : Bool} (h : a.Silent) :
    Landmark.Brings isPredicate a.landmarks [] :=
  Landmark.brings_of_names h.landmarks

namespace Dialect

open Draft

variable {d : Dialect}

theorem silent_columnOf (aliasName column : String) : Silent (columnOf aliasName column) := by
  simp [columnOf, Part.isSilent]

theorem silent_table (schema table : String) : Silent (d.table schema table) := by
  rw [Dialect.table]
  split
  · simp [Part.isSilent]
  · exact silent_columnOf schema table

theorem silent_selectItem (item : SelectItem) : Silent (d.selectItem item) := by
  cases item with
  | wildcard aliasName => simp [selectItem, Part.isSilent]
  | column aliasName column label type =>
    cases hCast : d.castBack? type with
    | some cast =>
      obtain ⟨-, rfl⟩ := castBack?_eq_some_iff.mp hCast
      simp [selectItem, hCast, silent_columnOf, labelled, Part.isSilent]
    | none => cases label <;> simp [selectItem, hCast, silent_columnOf, labelled, Part.isSilent]

theorem silent_selectItems (items : List SelectItem) : Silent (d.selectItems items) :=
  .listed (by simp [silent_selectItem])

theorem silent_columns (cs : List Column) : Silent (d.columns cs) := by
  refine .listed ?_
  simp only [List.forall_mem_map]
  intro c _
  cases hCast : d.castBack? c.type with
  | some cast =>
    obtain ⟨-, rfl⟩ := castBack?_eq_some_iff.mp hCast
    simp [readAs, hCast, labelled, Part.isSilent]
  | none => simp [readAs, hCast, Part.isSilent]

theorem silent_sortKey (k : SortKey) : Silent (sortKey k) := by
  refine .spaced ?_
  cases k.direction <;>
    simp [silent_columnOf, Part.isSilent, direction]

theorem silent_sortKeys (ks : List SortKey) : Silent (sortKeys ks) :=
  .listed (List.forall_mem_map.mpr fun k _ => silent_sortKey k)

theorem silent_joins (js : List Join) : Silent (d.joins js) := by
  intro p hp
  obtain ⟨j, -, hp⟩ := List.mem_flatMap.mp hp
  have hOn : Silent (equals (columnOf j.parentAlias j.parentColumn)
      (columnOf j.childAlias j.childColumn)) :=
    .spaced (by simp [silent_columnOf, Part.isSilent])
  have hWords : Silent (words [.LEFT, .OUTER, .JOIN]) := silent_words (by decide)
  have hJoin : Silent (d.join j) := by
    refine silent_cons.mpr ⟨rfl, .spaced ?_⟩
    simp [hWords, silent_table, hOn, Part.isSilent]
  exact hJoin p hp

theorem silent_paging (p : Paging) (ordered : Bool) : Silent (d.paging p ordered) := by
  have hWords : Silent (words [.ROWS, .FETCH, .NEXT]) ∧ Silent (words [.ROWS, .ONLY]) :=
    ⟨silent_words (by decide), silent_words (by decide)⟩
  have hPage : Silent (spaced [[.keyword .OFFSET], [.number p.offset], words [.ROWS, .FETCH, .NEXT],
      [.number p.limit], words [.ROWS, .ONLY]]) :=
    .spaced (by simp [hWords, Part.isSilent])
  have hNull : Silent (enclosed (words [.SELECT, .NULL])) := (silent_words (by decide)).enclosed
  have hOrder : Silent (words [.ORDER, .BY]) := silent_words (by decide)
  have hConstant : Silent constantOrder := .spaced (by simp [hNull, hOrder])
  rw [paging]
  split
  · split
    · exact hPage
    · exact .spaced (by simp [hPage, hConstant])
  · exact .spaced (by simp [Part.isSilent])

end Dialect

/-- The literals of a condition as they are bound. A text that is searched for is made a pattern,
and null is not bound where it is compared without a value. -/
def Condition.literals (d : Dialect) (c : Condition) : List BoundValue :=
  match c.operator, c.operand with
  | .eq, .single .null | .ne, .single .null => []
  | .contains, .single v | .startsWith, .single v => [d.pattern c.operator v]
  | _, .single v => [v]
  | .within, .list vs => vs
  | _, .list vs => [vs.head?.getD .null]

def Condition.meant (d : Dialect) (c : Condition) : List (Site × BoundValue) :=
  (c.literals d).map (.compared c.column, ·)

/-- The literals of a filter in the order in which they were written, each with its column. -/
def Filter.meant (d : Dialect) (f : Filter) : List (Site × BoundValue) :=
  f.conditions.flatMap (Condition.meant d)

namespace Dialect

open Draft

variable {d : Dialect}

theorem landmarks_relation (c : Condition) (v : BoundValue) :
    (relation c v).landmarks = [.name c.aliasName, .name c.column, .value v] := by
  rw [relation, landmarks_spaced]
  rfl

theorem landmarks_patternCondition (d : Dialect) (c : Condition) (v : BoundValue) :
    (d.patternCondition c v).landmarks =
      [.name c.aliasName, .name c.column, .value (d.pattern c.operator v)] := by
  cases d with
  | postgres =>
    rw [patternCondition, matchForm]
    by_cases hText : c.type = .text <;> simp [hText] <;> rfl
  | mysql | sqlite | sqlServer => rfl

theorem landmarks_condition (d : Dialect) (c : Condition) :
    (d.condition c).landmarks =
      .name c.aliasName :: .name c.column :: (c.literals d).map .value := by
  obtain ⟨aliasName, column, type, op, operand⟩ := c
  cases operand with
  | single v =>
    cases op with
    | eq | ne =>
      cases v with
      | null => rfl
      | _ => exact landmarks_relation _ _
    | contains | startsWith => exact landmarks_patternCondition d _ v
    | gt | ge | lt | le | within => exact landmarks_relation _ _
  | list vs =>
    cases op with
    | within =>
      have hValues : (vs.map fun v => [Part.value column v (some type)]).flatMap landmarks =
          vs.map .value := by
        rw [List.flatMap_map]
        exact List.flatMap_pure_eq_map Landmark.value vs
      rw [condition, landmarks_spaced]
      simp only [List.flatMap_cons, List.flatMap_nil, landmarks_enclosed, landmarks_listed, hValues,
        List.append_nil]
      rfl
    | _ => exact landmarks_relation _ _

theorem landmarks_filter (d : Dialect) (f : Filter) :
    (d.filter f).landmarks = f.conditions.flatMap fun c =>
      .name c.aliasName :: .name c.column :: (c.literals d).map .value := by
  induction f with
  | condition c => simp [filter, Filter.conditions, landmarks_condition]
  | combined left op right ihLeft ihRight =>
    have hKeyword : Draft.landmarks [.keyword (combinator op)] = [] := by cases op <;> rfl
    simp [filter, Filter.conditions, ihLeft, ihRight, hKeyword]
  | group inner ih => rw [filter, landmarks_enclosed, ih, Filter.conditions]

theorem brings_values (aliasName column : String) (vs : List BoundValue) :
    Landmark.Brings true (.name aliasName :: .name column :: vs.map .value)
      (vs.map (.compared column, ·)) := by
  refine fun _ => ⟨column, fun rest => ?_⟩
  change Landmark.sites true column (vs.map .value ++ rest) = _
  induction vs with
  | nil => rfl
  | cons v vs ih => simp [Landmark.sites, Landmark.site, ih]

theorem brings_filter (d : Dialect) (f : Filter) :
    Landmark.Brings true (d.filter f).landmarks (f.meant d) := by
  rw [landmarks_filter, Filter.meant]
  induction f.conditions with
  | nil => exact Landmark.brings_of_names (by simp)
  | cons c cs ih => exact (brings_values c.aliasName c.column (c.literals d)).append ih

end Dialect

end TableGateway
