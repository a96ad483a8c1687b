import TableGateway.Proofs.Catalog.Document
import TableGateway.Proofs.Catalog.Lookup

/-!
# Loaded catalogs

A catalog that was loaded is loaded again from its own text. In its schemas every entity is found by
its name, but schemas are not compared with each other when they are checked, nor are the columns of
an entity: of two with one name the second is never found.
-/

namespace TableGateway

open Text (sameName sameName_eq_true_iff sameName_self sameName_comm)

section

variable {α : Type} {nameOf : α → String} {xs : List α}

/-- Every entry of a list is found by its name exactly when no two entries have one name. -/
theorem find?_sameName_iff :
    (∀ x ∈ xs, ∀ name, sameName name (nameOf x) = true →
      (xs.find? fun y => sameName (nameOf y) name) = some x) ↔
    ∀ x ∈ xs, ∀ y ∈ xs, sameName (nameOf x) (nameOf y) = true → x = y := by
  constructor
  · intro hFinds x hx y hy hSame
    have hFirst := hFinds y hy (nameOf x) hSame
    rw [hFinds x hx (nameOf x) (sameName_self _)] at hFirst
    exact Option.some.inj hFirst
  · intro hDistinct x hx name hName
    rw [sameName_comm] at hName
    refine find?_eq_some_of_unique hx hName fun y hy hSame => ?_
    rw [sameName_eq_true_iff] at hSame hName
    exact hDistinct y hy x hx (sameName_eq_true_iff.mpr (hSame.trans hName.symm))

end

namespace Catalog

variable {catalog : Catalog} {text : String}

namespace Valid

theorem view_eq (h : catalog.Valid) {s : Schema} {e : Entity} (hSchema : s ∈ catalog.schemas)
    (hView : e ∈ s.views) : e.readOnly = true ∧ ∀ c ∈ e.columns, c.computed = true := by
  have hSchemas : catalog.schemas.map Schema.normalized = catalog.schemas :=
    congrArg Catalog.schemas h.isNormalized
  rw [← hSchemas] at hSchema
  obtain ⟨s', -, rfl⟩ := List.mem_map.mp hSchema
  obtain ⟨e', -, rfl⟩ := List.mem_map.mp hView
  refine ⟨rfl, ?_⟩
  intro c hc
  obtain ⟨c', -, rfl⟩ := List.mem_map.mp hc
  rfl

theorem load_toText (h : catalog.Valid) : load catalog.toText = .ok catalog := by
  have hCheck : catalog.normalized.check = .ok () := by rw [h.isNormalized, h.isChecked]
  rw [catalog.load_toText hCheck, h.isNormalized]

end Valid

/-- What was loaded is its own normal form, is accepted when it is checked once more, and is loaded
again from its text. -/
theorem loading_is_stable (h : load text = .ok catalog) :
    load catalog.toText = .ok catalog ∧
    (∀ s ∈ catalog.schemas, ∀ e ∈ s.entities, e.schema = s.name) ∧
    (∀ s ∈ catalog.schemas, ∀ e ∈ s.views, e.readOnly = true ∧
      ∀ c ∈ e.columns, c.computed = true) ∧
    catalog.normalized = catalog ∧ catalog.check = .ok () := by
  have hValid := valid_of_load h
  refine ⟨hValid.load_toText, ?_, ?_, hValid.isNormalized, hValid.isChecked⟩
  · exact fun s hs e he => hValid.schema_eq hs he
  · exact fun s hs e he => hValid.view_eq hs he

/-- A view that its document says to be writable, and of another schema. -/
def writableView : Catalog :=
  ⟨[⟨"shop", [], [⟨"totals", "stock", false, [{ name := "Sum", type := .integer }]⟩]⟩]⟩

theorem writableView_is_stable :
    load writableView.toText = .ok writableView.normalized ∧
    writableView.normalized ≠ writableView ∧
    load writableView.normalized.toText = .ok writableView.normalized := by
  have hLoad := writableView.load_toText (by decide +kernel)
  exact ⟨hLoad, by decide, (loading_is_stable hLoad).1⟩

/-- Everything is found by its names, in any spelling. -/
structure IsUnambiguous (catalog : Catalog) : Prop where
  schemas : ∀ s ∈ catalog.schemas, ∀ name, sameName name s.name = true →
    catalog.schema? name = some s
  entities : ∀ e ∈ catalog.entities, ∀ schema name, sameName schema e.schema = true →
    sameName name e.name = true → catalog.entity? schema name = some e
  columns : ∀ e ∈ catalog.entities, ∀ c ∈ e.columns, ∀ name, sameName name c.name = true →
    e.column? name = some c

/-- No two schemas have one name, nor two columns of an entity. -/
structure HasDistinctNames (catalog : Catalog) : Prop where
  schemas : ∀ s ∈ catalog.schemas, ∀ t ∈ catalog.schemas, sameName s.name t.name = true → s = t
  columns : ∀ e ∈ catalog.entities, ∀ c ∈ e.columns, ∀ k ∈ e.columns,
    sameName c.name k.name = true → c = k

namespace Valid

theorem entity?_eq (h : catalog.Valid) {s : Schema} (hSchema : s ∈ catalog.schemas) :
    ∀ e ∈ s.entities, ∀ name, sameName name e.name = true → s.entity? name = some e := by
  apply find?_sameName_iff.mpr
  intro e he x hx hSame
  have hLower := Text.lowercase_eq_of_sameName hSame
  exact List.inj_on_of_nodup_map (h.nodup_names hSchema) he hx hLower

theorem isUnambiguous_iff (h : catalog.Valid) :
    catalog.IsUnambiguous ↔ catalog.HasDistinctNames := by
  constructor
  · intro hFinds
    constructor
    · exact find?_sameName_iff.mp hFinds.schemas
    · exact fun e he => find?_sameName_iff.mp (hFinds.columns e he)
  · intro hDistinct
    have hSchemas : ∀ s ∈ catalog.schemas, ∀ name, sameName name s.name = true →
        catalog.schema? name = some s := find?_sameName_iff.mpr hDistinct.schemas
    constructor
    · exact hSchemas
    · intro e he schema name hSchema hName
      obtain ⟨s, hIn, hMem⟩ := List.mem_flatMap.mp he
      rw [h.schema_eq hIn hMem] at hSchema
      rw [entity?, hSchemas s hIn schema hSchema]
      exact h.entity?_eq hIn e hMem name hName
    · exact fun e he => find?_sameName_iff.mpr (hDistinct.columns e he)

end Valid

/-- Every entity of a loaded catalog is found in its own schema. Schemas and columns, and entities
in the whole catalog, are all found exactly when no two schemas have one name and no two columns of
an entity do. -/
theorem names_are_unambiguous_iff (h : load text = .ok catalog) :
    (∀ s ∈ catalog.schemas, ∀ e ∈ s.entities, ∀ name, sameName name e.name = true →
      s.entity? name = some e) ∧
    (catalog.IsUnambiguous ↔ catalog.HasDistinctNames) :=
  ⟨fun _ hs => (valid_of_load h).entity?_eq hs, (valid_of_load h).isUnambiguous_iff⟩

/-- Customers in one schema and items in another one, whose name and second column are given. -/
def twoSchemas (schema column : String) : Catalog :=
  ⟨[⟨"sales", [⟨"customers", "sales", false, [{ name := "ID", type := .integer }]⟩], []⟩,
    ⟨schema,
      [⟨"items", schema, false,
        [{ name := "ID", type := .integer }, { name := column, type := .text }]⟩], []⟩]⟩

theorem stockSchemas_are_unambiguous :
    load (twoSchemas "stock" "Name").toText = .ok (twoSchemas "stock" "Name") ∧
    (twoSchemas "stock" "Name").IsUnambiguous := by
  have hLoad : load (twoSchemas "stock" "Name").toText = .ok (twoSchemas "stock" "Name") :=
    load_toText _ (by decide +kernel)
  exact ⟨hLoad, (names_are_unambiguous_iff hLoad).2.mpr ⟨by decide, by decide⟩⟩

/-- A schema whose name is that of the first one in capitals is accepted, and so is a column `id`
beside the column `ID`. Neither is found, nor are the items of the schema. -/
theorem capitalSchema_is_hidden :
    load (twoSchemas "SALES" "id").toText = .ok (twoSchemas "SALES" "id") ∧
    ∃ s ∈ (twoSchemas "SALES" "id").schemas, ∃ items ∈ s.entities, ∃ c ∈ items.columns,
      (twoSchemas "SALES" "id").schema? s.name ≠ some s ∧
      (twoSchemas "SALES" "id").entity? items.schema items.name = none ∧
      items.column? c.name ≠ some c :=
  ⟨load_toText _ (by decide +kernel), ⟨"SALES", _, _⟩, .tail _ (.head _), _, .head _, _,
    .tail _ (.head _), by decide, by decide, by decide⟩

end Catalog

end TableGateway
