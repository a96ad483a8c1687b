import TableGateway.Proofs.Catalog.Lookup
import TableGateway.Proofs.Filter.Acceptance
import TableGateway.Proofs.Sql.Page

/-!
# Columns that are sorted by once

A page is sorted by the keys of the request and then by the primary key. The primary key is left out
where it is the last key of the request, and only there; and a request may give a column as often as
it likes. So a column is sorted by twice where the request gives it twice, in whatever case, or
where the request gives the primary key before another key.
-/

namespace TableGateway

variable {e : Entity} {keys : List SortKey} {raw : String}

namespace Entity

/-- The name of the column that a name finds. -/
def spelling? (e : Entity) (name : String) : Option String := (e.column? name).map Column.name

theorem spelling?_ne_iff {a b : String} (h : (e.spelling? a).isSome = true)
    (h' : (e.spelling? b).isSome = true) :
    e.spelling? a ≠ e.spelling? b ↔ Text.sameName a b = false := by
  rw [spelling?, Option.isSome_map, Option.isSome_iff_exists] at h h'
  obtain ⟨c, hc⟩ := h
  obtain ⟨c', hc'⟩ := h'
  rw [spelling?, spelling?, hc, hc', Option.map_some, Option.map_some, ne_eq, Option.some.injEq,
    name_eq_iff hc hc', Bool.not_eq_true]

end Entity

namespace SortKey

/-- The column that a key sorts by, under the alias of its entity. -/
def place (k : SortKey) : String × String := (k.aliasName, k.column)

/-- The names in a sort list, without their directions. -/
def namesIn (raw : String) : List String :=
  if Text.isBlankText raw then []
  else (Text.split (· = ',') raw).map fun key =>
    Text.trimmed ((Text.split (· = ':') (Text.trimmed key)).headD "")

/-- The key sorts by the column that the name finds. -/
structure Finds (e : Entity) (name : String) (k : SortKey) : Prop where
  aliasName : k.aliasName = e.aliasName
  spelling : e.spelling? name = some k.column

theorem of_parts {key name : String} {direction : Direction}
    (h : parts key = .ok (name, direction)) :
    name = Text.trimmed ((Text.split (· = ':') key).headD "") := by
  rw [parts] at h
  split at h
  · next hPieces =>
    cases h
    obtain ⟨piece, hSplit, rfl⟩ := List.map_eq_singleton_iff.mp hPieces
    rw [hSplit, List.headD_cons]
  · next hPieces =>
    obtain ⟨d, -, hPair⟩ := Outcome.map_eq_ok_iff.mp h
    cases hPair
    obtain ⟨piece, rest, hSplit, rfl, -⟩ := List.map_eq_cons_iff.mp hPieces
    rw [hSplit, List.headD_cons]
  · cases h

theorem finds_of_read {key : String} {k : SortKey} (h : read e key = .ok k) :
    Finds e (Text.trimmed ((Text.split (· = ':') key).headD "")) k := by
  obtain ⟨⟨name, direction⟩, hParts, h⟩ := Outcome.bind_eq_ok_iff.mp h
  rw [← of_parts hParts]
  dsimp only at h
  split at h
  · cases h
  · rw [onColumn] at h
    split at h
    · cases h
    · split at h
      · next c hColumn =>
        cases h
        exact ⟨rfl, by rw [Entity.spelling?, hColumn, Option.map_some]⟩
      · cases h

theorem finds_of_compile (h : compile e raw = .ok keys) :
    List.Forall₂ (Finds e) (namesIn raw) keys := by
  rw [compile] at h
  rw [namesIn]
  split at h
  · next hBlank =>
    cases h
    rw [if_pos hBlank]
    exact .nil
  · next hBlank =>
    rw [if_neg hBlank, List.forall₂_map_left_iff]
    exact (Outcome.mapM_eq_ok_iff.mp h).imp fun _ _ => finds_of_read

theorem map_spelling? {names : List String} (h : List.Forall₂ (Finds e) names keys) :
    names.map e.spelling? = (keys.map column).map some := by
  induction h with
  | nil => rfl
  | cons hFirst _ ih => rw [List.map_cons, List.map_cons, List.map_cons, ih, hFirst.spelling]

theorem aliasName_of_finds {names : List String} (h : List.Forall₂ (Finds e) names keys) :
    ∀ k ∈ keys, k.aliasName = e.aliasName := by
  induction h with
  | nil => exact nofun
  | cons hFirst _ ih =>
    rw [List.forall_mem_cons]
    exact ⟨hFirst.aliasName, ih⟩

theorem nodup_columns_iff {names : List String} (h : List.Forall₂ (Finds e) names keys) :
    (keys.map column).Nodup ↔ names.Pairwise fun a b => Text.sameName a b = false := by
  have hFound : ∀ name ∈ names, (e.spelling? name).isSome = true := by
    intro name hName
    have hMem := List.mem_map_of_mem (f := e.spelling?) hName
    rw [map_spelling? h] at hMem
    obtain ⟨column, -, hColumn⟩ := List.mem_map.mp hMem
    rw [← hColumn, Option.isSome_some]
  rw [← List.nodup_map_iff (Option.some_injective _), ← map_spelling? h,
    List.nodup_iff_pairwise_ne, List.pairwise_map]
  exact List.Pairwise.iff_of_mem fun ha hb => Entity.spelling?_ne_iff (hFound _ ha) (hFound _ hb)

theorem not_mem_dropLast_iff {names : List String} {column : String}
    (h : List.Forall₂ (Finds e) names keys) :
    column ∉ (keys.map SortKey.column).dropLast ↔
      ∀ name ∈ names.dropLast, e.spelling? name ≠ some column := by
  rw [← List.mem_map_of_injective (Option.some_injective _), List.map_dropLast, ← map_spelling? h,
    ← List.map_dropLast, List.mem_map, not_exists]
  exact forall_congr' fun _ => not_and

theorem nodup_place_iff (h : ∀ k ∈ keys, k.aliasName = e.aliasName) :
    (keys.map place).Nodup ↔ (keys.map column).Nodup := by
  have hPlaces : keys.map place = (keys.map column).map (Prod.mk e.aliasName) := by
    rw [List.map_map]
    exact List.map_congr_left fun k hk => by rw [place, h k hk, Function.comp_apply]
  rw [hPlaces, List.nodup_map_iff (Prod.mk_right_injective _)]

end SortKey

namespace Entity

variable {key : Column} {k : SortKey}

theorem ordering_of_last (hKey : e.primaryKey? = some key) (hAlias : k.aliasName = e.aliasName)
    (hColumn : k.column = key.name) : e.ordering (keys ++ [k]) = keys ++ [k] := by
  rw [ordering, hKey]
  exact if_pos (by simp [hAlias, hColumn])

theorem ordering_of_other (hKey : e.primaryKey? = some key)
    (hLast : ∀ k ∈ keys.getLast?, k.column ≠ key.name) :
    e.ordering keys = keys ++ [⟨e.aliasName, key.name, .ascending⟩] := by
  rw [ordering, hKey]
  refine if_neg ?_
  rw [Option.any_eq_true]
  rintro ⟨k, hk, hIsKey⟩
  rw [Bool.and_eq_true, decide_eq_true_eq, decide_eq_true_eq] at hIsKey
  exact hLast k hk hIsKey.2

/-- The primary key is looked for at the last place alone. -/
theorem nodup_ordering_iff (hKey : e.primaryKey? = some key)
    (hAlias : ∀ k ∈ keys, k.aliasName = e.aliasName) :
    ((e.ordering keys).map SortKey.column).Nodup ↔
      (keys.map SortKey.column).Nodup ∧ key.name ∉ (keys.map SortKey.column).dropLast := by
  rcases keys.eq_nil_or_concat' with rfl | ⟨before, k, rfl⟩
  · have hNone : ∀ k ∈ ([] : List SortKey).getLast?, k.column ≠ key.name :=
      fun k hk => absurd hk (Option.not_mem_none k)
    rw [ordering_of_other hKey hNone]
    simp
  · rw [List.map_append, List.map_singleton, List.dropLast_concat]
    by_cases hColumn : k.column = key.name
    · rw [ordering_of_last hKey (hAlias k (by simp)) hColumn, List.map_append, List.map_singleton,
        hColumn, ← List.concat_eq_append, List.nodup_concat]
      tauto
    · have hLast : ∀ x ∈ (before ++ [k]).getLast?, x.column ≠ key.name := by
        rw [List.getLast?_concat]
        rintro x ⟨⟩
        exact hColumn
      rw [ordering_of_other hKey hLast, List.map_append, List.map_append, List.map_singleton,
        List.map_singleton, ← List.concat_eq_append, List.nodup_concat, and_comm]
      simp [Ne.symm hColumn]

/-- A page is sorted by the columns that its keys name, each of them once exactly when the request
names no column twice, in whatever case, and the primary key nowhere before its last name. -/
theorem columns_are_sorted_once_iff (h : SortKey.compile e raw = .ok keys) :
    (∀ (d : Dialect) (q : QueryPlan), q.sort = keys → e.ordering keys ≠ [] →
      0 ≤ q.paging.limit → 0 ≤ q.paging.offset →
        (Statement.list d e q).PagesBy (e.ordering keys) q.paging) ∧
    (((e.ordering keys).map SortKey.place).Nodup ↔
      ((SortKey.namesIn raw).Pairwise fun a b => Text.sameName a b = false) ∧
        ∀ key, e.primaryKey? = some key →
          ∀ name ∈ (SortKey.namesIn raw).dropLast, e.spelling? name ≠ some key.name) := by
  have hFinds := SortKey.finds_of_compile h
  have hAlias := SortKey.aliasName_of_finds hFinds
  refine ⟨?_, ?_⟩
  · rintro d q rfl hKeys hLimit hOffset
    exact Statement.pagesBy_list d hKeys hLimit hOffset
  · rw [SortKey.nodup_place_iff (forall_mem_ordering hAlias fun _ _ => rfl),
      ← SortKey.nodup_columns_iff hFinds]
    cases hKey : e.primaryKey? with
    | none =>
      rw [ordering, hKey]
      simp
    | some key =>
      rw [nodup_ordering_iff hKey hAlias, SortKey.not_mem_dropLast_iff hFinds]
      simp

/-- The primary key comes last, and nothing twice. -/
theorem nameThenCode_is_sorted_once :
    ∃ keys, SortKey.compile Filter.sampleEntity "Name:desc, code" = .ok keys ∧
      keys.length = 2 ∧ ((Filter.sampleEntity.ordering keys).map SortKey.place).Nodup := by
  have hCompile : SortKey.compile Filter.sampleEntity "Name:desc, code" =
      .ok [⟨"t_items", "Name", .descending⟩, ⟨"t_items", "Code", .ascending⟩] := rfl
  refine ⟨_, hCompile, rfl, (columns_are_sorted_once_iff hCompile).2.mpr ⟨by decide, ?_⟩⟩
  rintro key ⟨⟩
  decide

/-- A column is sorted by twice where it is given twice, and the primary key where it is given
before another column. -/
theorem repeatedColumns_are_sorted_twice :
    SortKey.compile Filter.sampleEntity "Name,name" =
        .ok [⟨"t_items", "Name", .ascending⟩, ⟨"t_items", "Name", .ascending⟩] ∧
      ¬ ((Filter.sampleEntity.ordering
        [⟨"t_items", "Name", .ascending⟩, ⟨"t_items", "Name", .ascending⟩]).map
          SortKey.place).Nodup ∧
      SortKey.compile Filter.sampleEntity "Code,Name" =
        .ok [⟨"t_items", "Code", .ascending⟩, ⟨"t_items", "Name", .ascending⟩] ∧
      ¬ ((Filter.sampleEntity.ordering
        [⟨"t_items", "Code", .ascending⟩, ⟨"t_items", "Name", .ascending⟩]).map
          SortKey.place).Nodup :=
  ⟨rfl, by decide, rfl, by decide⟩

end Entity

end TableGateway
