import Mathlib.Data.List.Nodup
import TableGateway.Catalog.Document
import TableGateway.Proofs.Outcome
import TableGateway.Proofs.Text.Lowercase

/-!
# Lookups in valid catalogs

A name that is looked up is found up to ASCII case. In a valid catalog every foreign key leads to an
entity that its target names. A name that is not qualified is looked for in the schema of its owner
first, which no lookup but this one does.
-/

namespace TableGateway

variable {catalog : Catalog} {e owner other : Entity} {c : Column} {schema name : String}

namespace Schema

theorem entity?_congr (s : Schema) {a b : String} (h : Text.sameName a b = true) :
    s.entity? a = s.entity? b := by
  have hFolded := Text.sameName_eq_true_iff.mp h
  simp only [entity?, Text.sameName, hFolded]

theorem of_entity? {s : Schema} (h : s.entity? name = some e) :
    e ∈ s.entities ∧ Text.sameName e.name name = true := by
  have hName := List.find?_some h
  exact ⟨List.mem_of_find?_eq_some h, hName⟩

theorem mem_normalized {s : Schema} (h : e ∈ s.normalized.entities) : e.schema = s.name := by
  rcases List.mem_append.mp h with hTable | hView
  · obtain ⟨table, -, rfl⟩ := List.mem_map.mp hTable
    rfl
  · obtain ⟨view, -, rfl⟩ := List.mem_map.mp hView
    rfl

end Schema

namespace Entity

theorem column?_eq_of_sameName (e : Entity) {a b : String} (h : Text.sameName a b = true) :
    e.column? a = e.column? b := by
  have hFolded := Text.sameName_eq_true_iff.mp h
  simp only [column?, Text.sameName, hFolded]

theorem folded_of_column? (h : e.column? name = some c) :
    Text.folded c.name = Text.folded name := by
  have hFound := List.find?_some h
  exact Text.sameName_eq_true_iff.mp hFound

/-- A column that is found by some name is found by its own. -/
theorem column?_name (h : e.column? name = some c) : e.column? c.name = some c := by
  have hSame := Text.sameName_eq_true_iff.mpr (folded_of_column? h)
  rw [e.column?_eq_of_sameName hSame, h]

/-- The columns that two names find have one name exactly when the two are spellings of one. -/
theorem name_eq_iff {a b : String} {c' : Column} (h : e.column? a = some c)
    (h' : e.column? b = some c') : c.name = c'.name ↔ Text.sameName a b = true := by
  constructor
  · intro hName
    rw [Text.sameName_eq_true_iff, ← folded_of_column? h, ← folded_of_column? h', hName]
  · intro hSame
    rw [e.column?_eq_of_sameName hSame] at h
    cases h.symm.trans h'
    rfl

end Entity

/-- The entity that a foreign key of `owner` leads to, by the rule by which catalogs are checked. -/
def Column.resolved? (catalog : Catalog) (owner : Entity) (c : Column) : Option Entity :=
  if c.foreignKey then c.target.bind (catalog.related? owner.schema) else none

theorem Column.refersTo_iff :
    c.refersTo e = true ↔ c.foreignKey = true ∧ ∃ target, c.target = some target ∧
      match Text.cut? '.' target with
      | some (schema, table) =>
        Text.sameName schema e.schema = true ∧ Text.sameName table e.name = true
      | none => Text.sameName target e.name = true := by
  rw [refersTo, Bool.and_eq_true]
  cases c.target with
  | none => simp
  | some target =>
    cases hCut : Text.cut? '.' target with
    | none => simp [hCut]
    | some parts => simp [hCut]

namespace Catalog

structure Valid (catalog : Catalog) : Prop where
  isNormalized : catalog.normalized = catalog
  isChecked : catalog.check = .ok ()

theorem valid_of_load {text : String} (h : load text = .ok catalog) : catalog.Valid := by
  rw [load] at h
  split at h
  · cases h
  · next c _ =>
    split at h
    · next hCheck =>
      cases h
      exact ⟨normalized_normalized c, hCheck⟩
    · cases h

theorem schema?_congr (catalog : Catalog) {a b : String} (h : Text.sameName a b = true) :
    catalog.schema? a = catalog.schema? b := by
  have hFolded := Text.sameName_eq_true_iff.mp h
  simp only [schema?, Text.sameName, hFolded]

theorem entity?_congr (catalog : Catalog) {s s' a b : String} (hSchema : Text.sameName s s' = true)
    (hName : Text.sameName a b = true) : catalog.entity? s a = catalog.entity? s' b := by
  rw [entity?, entity?, catalog.schema?_congr hSchema]
  exact congrArg _ (funext fun found => found.entity?_congr hName)

theorem related?_of_cut {other table : String} (h : Text.cut? '.' name = some (other, table)) :
    catalog.related? schema name = catalog.entity? other table := by
  rw [related?, h]

theorem related?_of_plain (h : Text.cut? '.' name = none) :
    catalog.related? schema name = (catalog.entity? schema name).or
      (catalog.entities.find? fun e => Text.sameName e.name name) := by
  rw [related?, h]

/-- The first entity of this name in the order of the schemas. -/
theorem find?_entities (catalog : Catalog) (name : String) :
    (catalog.entities.find? fun e => Text.sameName e.name name) =
      catalog.schemas.findSome? fun s => s.entity? name :=
  List.find?_flatMap

namespace Valid

theorem schema_eq (h : catalog.Valid) {s : Schema} (hSchema : s ∈ catalog.schemas)
    (hEntity : e ∈ s.entities) : e.schema = s.name := by
  have hSchemas : catalog.schemas.map Schema.normalized = catalog.schemas :=
    congrArg Catalog.schemas h.isNormalized
  rw [← hSchemas] at hSchema
  obtain ⟨s', -, rfl⟩ := List.mem_map.mp hSchema
  change e.schema = s'.name
  exact Schema.mem_normalized hEntity

theorem of_entity? (h : catalog.Valid) (hFound : catalog.entity? schema name = some e) :
    e ∈ catalog.entities ∧ Text.sameName e.schema schema = true ∧
      Text.sameName e.name name = true := by
  obtain ⟨s, hSchema, hEntity⟩ := Option.bind_eq_some_iff.mp hFound
  obtain ⟨hMem, hName⟩ := Schema.of_entity? hEntity
  have hIn := List.mem_of_find?_eq_some hSchema
  have hSame : Text.sameName s.name schema = true := by simpa using List.find?_some hSchema
  refine ⟨List.mem_flatMap.mpr ⟨s, hIn, hMem⟩, ?_, hName⟩
  rw [h.schema_eq hIn hMem]
  exact hSame

theorem mem_of_related? (h : catalog.Valid) (hFound : catalog.related? schema name = some e) :
    e ∈ catalog.entities := by
  rw [related?] at hFound
  split at hFound
  · exact (h.of_entity? hFound).1
  · rcases Option.or_eq_some_iff.mp hFound with hOwn | ⟨-, hAny⟩
    · exact (h.of_entity? hOwn).1
    · exact List.mem_of_find?_eq_some hAny

theorem sameName_of_related? (h : catalog.Valid) (hPlain : Text.cut? '.' name = none)
    (hFound : catalog.related? schema name = some e) : Text.sameName e.name name = true := by
  rw [related?, hPlain] at hFound
  rcases Option.or_eq_some_iff.mp hFound with hOwn | ⟨-, hAny⟩
  · exact (h.of_entity? hOwn).2.2
  · simpa using List.find?_some hAny

/-- What a foreign key leads to is an entity that its target names. -/
theorem refersTo_of_resolved (h : catalog.Valid) (hFound : c.resolved? catalog owner = some e) :
    c.refersTo e = true := by
  rw [Column.resolved?, Option.ite_none_right_eq_some] at hFound
  obtain ⟨hKey, hFound⟩ := hFound
  obtain ⟨target, hTarget, hFound⟩ := Option.bind_eq_some_iff.mp hFound
  refine Column.refersTo_iff.mpr ⟨hKey, target, hTarget, ?_⟩
  cases hCut : Text.cut? '.' target with
  | none =>
    rw [Text.sameName_comm]
    exact h.sameName_of_related? hCut hFound
  | some parts =>
    rw [related?, hCut] at hFound
    obtain ⟨-, hSchema, hName⟩ := h.of_entity? hFound
    rw [Text.sameName_comm] at hSchema hName
    exact ⟨hSchema, hName⟩

theorem isSome_resolved (h : catalog.Valid) (hOwner : owner ∈ catalog.entities)
    (hColumn : c ∈ owner.columns) (hKey : c.foreignKey = true) :
    ∃ e ∈ catalog.entities, c.resolved? catalog owner = some e := by
  obtain ⟨⟨⟩, -, hTargets⟩ := Outcome.bind_eq_ok_iff.mp h.isChecked
  have hOwnTargets := Outcome.forM_eq_ok_iff.mp hTargets owner hOwner
  have hChecked := Outcome.forM_eq_ok_iff.mp hOwnTargets c hColumn
  rw [checkColumn, if_pos hKey] at hChecked
  cases hTarget : c.target with
  | none =>
    rw [hTarget] at hChecked
    cases hChecked
  | some target =>
    simp only [hTarget] at hChecked
    split at hChecked
    · next hSome =>
      obtain ⟨e, hFound⟩ := Option.isSome_iff_exists.mp hSome
      refine ⟨e, h.mem_of_related? hFound, ?_⟩
      rw [Column.resolved?, if_pos hKey, hTarget]
      exact hFound
    · cases hChecked

/-- The first entity of a name lies in the first schema with that name that has such an entity. -/
theorem entity?_of_first (h : catalog.Valid) {table : String} {found : Entity}
    (hFirst : (catalog.entities.find? fun e => Text.sameName e.name table) = some other)
    (hSchema : Text.sameName schema other.schema = true)
    (hFound : catalog.entity? schema table = some found) : found = other := by
  rw [find?_entities] at hFirst
  obtain ⟨before, s, after, hSchemas, hEntity, hBefore⟩ := List.findSome?_eq_some_iff.mp hFirst
  obtain ⟨s', hNamed, hInNamed⟩ := Option.bind_eq_some_iff.mp hFound
  have hIn : s ∈ catalog.schemas := by simp [hSchemas]
  have hThis : Text.sameName s.name schema = true := by
    rw [← h.schema_eq hIn (Schema.of_entity? hEntity).1, Text.sameName_comm]
    exact hSchema
  rw [schema?, hSchemas, List.find?_append] at hNamed
  rcases Option.or_eq_some_iff.mp hNamed with hEarlier | ⟨-, hHere⟩
  · have hMissing := hBefore s' (List.mem_of_find?_eq_some hEarlier)
    rw [hInNamed] at hMissing
    cases hMissing
  · have hSame : s = s' := by simpa [hThis] using hHere
    rw [← hSame, hEntity] at hInNamed
    exact (Option.some.inj hInNamed).symm

/-- By the names of an entity that was itself found by a plain name no other one is found. -/
theorem eq_of_related? (h : catalog.Valid) (hPlain : Text.cut? '.' name = none)
    (hRelated : catalog.related? schema name = some e)
    (hFound : catalog.entity? e.schema e.name = some other) : other = e := by
  have hName := h.sameName_of_related? hPlain hRelated
  rw [related?_of_plain hPlain] at hRelated
  rcases Option.or_eq_some_iff.mp hRelated with hOwn | ⟨-, hAny⟩
  · rw [catalog.entity?_congr (h.of_entity? hOwn).2.1 hName, hOwn] at hFound
    exact (Option.some.inj hFound).symm
  · simp only [Text.sameName, ← Text.sameName_eq_true_iff.mp hName] at hAny
    exact h.entity?_of_first hAny (Text.sameName_self e.schema) hFound

/-- The target of a foreign key is looked up like the name by which the entity was found. -/
theorem resolved_of_related (h : catalog.Valid) (hOwner : owner ∈ catalog.entities)
    (hColumn : c ∈ owner.columns) (hRefers : c.refersTo other = true)
    (hPlain : Text.cut? '.' name = none)
    (hRelated : catalog.related? owner.schema name = some other) :
    c.resolved? catalog owner = some other := by
  obtain ⟨hKey, target, hTarget, hNames⟩ := Column.refersTo_iff.mp hRefers
  have hName := h.sameName_of_related? hPlain hRelated
  obtain ⟨found, -, hFound⟩ := h.isSome_resolved hOwner hColumn hKey
  rw [Column.resolved?, if_pos hKey, hTarget, Option.bind_some] at hFound ⊢
  rw [related?_of_plain hPlain] at hRelated
  cases hCut : Text.cut? '.' target with
  | none =>
    rw [hCut] at hNames
    have hSame : Text.sameName target name = true := by
      rw [Text.sameName_eq_true_iff] at hNames hName ⊢
      exact hNames.trans hName
    have hFolded := Text.sameName_eq_true_iff.mp hSame
    rw [related?_of_plain hCut, ← hRelated,
      catalog.entity?_congr (Text.sameName_self owner.schema) hSame]
    simp only [Text.sameName, hFolded]
  | some parts =>
    obtain ⟨schema, table⟩ := parts
    rw [hCut] at hNames
    rw [related?_of_cut hCut] at hFound ⊢
    have hTable : Text.sameName table name = true := by
      rw [Text.sameName_eq_true_iff] at hName ⊢
      exact (Text.sameName_eq_true_iff.mp hNames.2).trans hName
    rcases Option.or_eq_some_iff.mp hRelated with hOwn | ⟨-, hAny⟩
    · have hSchema : Text.sameName schema owner.schema = true := by
        rw [Text.sameName_eq_true_iff]
        exact (Text.sameName_eq_true_iff.mp hNames.1).trans
          (Text.sameName_eq_true_iff.mp (h.of_entity? hOwn).2.1)
      exact (catalog.entity?_congr hSchema hTable).trans hOwn
    · have hFolded := Text.sameName_eq_true_iff.mp hTable
      simp only [Text.sameName, ← hFolded] at hAny
      rw [hFound, h.entity?_of_first hAny hNames.1 hFound]

/-- A foreign key leads to an entity that its target names, if that is found in the schema of the
owner, or if the target names no other one. -/
theorem resolved_of_unambiguous (h : catalog.Valid) (hOwner : owner ∈ catalog.entities)
    (hColumn : c ∈ owner.columns) (hRefers : c.refersTo other = true)
    (hClear : catalog.entity? owner.schema other.name = some other ∨
      ∀ x ∈ catalog.entities, c.refersTo x = true → x = other) :
    c.resolved? catalog owner = some other := by
  obtain ⟨hKey, target, hTarget, hNames⟩ := Column.refersTo_iff.mp hRefers
  rcases hClear with hNear | hOnly
  · rw [Column.resolved?, if_pos hKey, hTarget, Option.bind_some]
    cases hCut : Text.cut? '.' target with
    | none =>
      rw [hCut] at hNames
      have hOwn := (catalog.entity?_congr (Text.sameName_self owner.schema) hNames).trans hNear
      rw [related?_of_plain hCut]
      exact Option.or_eq_some_iff.mpr (.inl hOwn)
    | some parts =>
      obtain ⟨schema, table⟩ := parts
      rw [hCut] at hNames
      have hSchema : Text.sameName schema owner.schema = true := by
        rw [Text.sameName_eq_true_iff]
        exact (Text.sameName_eq_true_iff.mp hNames.1).trans
          (Text.sameName_eq_true_iff.mp (h.of_entity? hNear).2.1)
      rw [related?_of_cut hCut]
      exact (catalog.entity?_congr hSchema hNames.2).trans hNear
  · obtain ⟨found, hMem, hFound⟩ := h.isSome_resolved hOwner hColumn hKey
    rw [hFound, hOnly found hMem (h.refersTo_of_resolved hFound)]

theorem nodup_of_checkEntities {seen : List String} {es : List Entity}
    (h : Schema.checkEntities name seen es = .ok ()) :
    (es.map fun e => Text.lowercase e.name).Nodup ∧ ∀ e ∈ es, Text.lowercase e.name ∉ seen := by
  induction es generalizing seen with
  | nil => exact ⟨List.nodup_nil, nofun⟩
  | cons e es ih =>
    rw [Schema.checkEntities] at h
    split at h
    · cases h
    · next hNew =>
      split at h
      · obtain ⟨hNodup, hFresh⟩ := ih h
        rw [List.map_cons, List.nodup_cons, List.forall_mem_cons]
        refine ⟨⟨?_, hNodup⟩, by simpa using hNew, ?_⟩
        · intro hAgain
          obtain ⟨x, hx, hName⟩ := List.mem_map.mp hAgain
          exact hFresh x hx (hName ▸ List.mem_cons_self)
        · exact fun x hx hSeen => hFresh x hx (List.mem_cons_of_mem _ hSeen)
      · cases h

theorem nodup_names (h : catalog.Valid) {s : Schema} (hSchema : s ∈ catalog.schemas) :
    (s.entities.map fun e => Text.lowercase e.name).Nodup := by
  obtain ⟨⟨⟩, hSchemas, -⟩ := Outcome.bind_eq_ok_iff.mp h.isChecked
  exact (nodup_of_checkEntities (Outcome.forM_eq_ok_iff.mp hSchemas s hSchema)).1

/-- Where no two schemas have one name, every entity is found by its own names. -/
theorem entity?_self (h : catalog.Valid)
    (hSchemas : (catalog.schemas.map fun s => Text.folded s.name).Nodup)
    (hEntity : e ∈ catalog.entities) : catalog.entity? e.schema e.name = some e := by
  obtain ⟨s, hIn, hMem⟩ := List.mem_flatMap.mp hEntity
  have hSchema : catalog.schema? s.name = some s := by
    refine find?_eq_some_of_unique hIn (Text.sameName_self s.name) fun t hThere hSame => ?_
    exact List.inj_on_of_nodup_map hSchemas hThere hIn (Text.sameName_eq_true_iff.mp hSame)
  have hName : s.entity? e.name = some e := by
    refine find?_eq_some_of_unique hMem (Text.sameName_self e.name) fun x hThere hSame => ?_
    exact List.inj_on_of_nodup_map (h.nodup_names hIn) hThere hMem
      (Text.lowercase_eq_of_sameName hSame)
  rw [entity?, h.schema_eq hIn hMem, hSchema]
  exact hName

end Valid

end Catalog

end TableGateway
