import TableGateway.Catalog.Document
import TableGateway.Proofs.Json.Document

/-!
# Catalogs that are read back

The document of a catalog is read back as this catalog, and so is its text.
-/

namespace TableGateway

open Json

theorem mapM_map_eq_some {α β : Type} {write : α → β} {read : β → Option α} {xs : List α}
    (h : ∀ x ∈ xs, read (write x) = some x) : (xs.map write).mapM read = some xs := by
  induction xs with
  | nil => rfl
  | cons x xs ih =>
    rw [List.forall_mem_cons] at h
    rw [List.map_cons, List.mapM_cons, h.1, ih h.2]
    rfl

theorem list?_array_map {α : Type} {write : α → Document} {read : Document → Option α} {xs : List α}
    (h : ∀ x ∈ xs, read (write x) = some x) :
    Document.list? read (.array (xs.map write)) = some xs :=
  mapM_map_eq_some h

namespace Column

variable (outer : Nat) (c : Column)

/-- The fields of a column in the order in which they are written. -/
def fields : Document.Fields :=
  [("name", .text c.name), ("type", .text c.type.name), ("primary_key", .bool c.primaryKey),
    ("foreign_key", .bool c.foreignKey), ("auto_number", .bool c.autoNumber),
    ("computed", .bool c.computed), ("unique", .bool c.unique), ("indexed", .bool c.indexed)] ++
    c.target.toList.map fun target => ("references", .text target)

theorem fields?_toDocument : c.toDocument.fields? = some c.fields := by
  rw [toDocument, members, fields]
  cases c.target with
  | none => rfl
  | some target => rfl

theorem othersReadable_fields : c.fields.othersReadable fieldNames outer = true := by
  rw [fields]
  cases c.target with
  | none => rfl
  | some target => rfl

theorem ofDocument?_toDocument : ofDocument? outer c.toDocument = some c := by
  have hType : DataType.ofDocument? (.text c.type.name) = some c.type :=
    congrArg some (DataType.ofName_name c.type)
  have hTypeField : c.fields.required? "type" DataType.ofDocument? = some c.type := by
    rw [← hType, fields]
    cases c.target with
    | none => rfl
    | some target => rfl
  rw [ofDocument?, fields?_toDocument]
  simp only [Option.bind_eq_bind, Option.bind_some, othersReadable_fields, hTypeField]
  rw [fields]
  obtain ⟨name, type, primaryKey, foreignKey, autoNumber, computed, unique, indexed, target⟩ := c
  cases target with
  | none => rfl
  | some target => rfl

theorem isKept_toDocument : c.toDocument.IsKept := by
  have hFields : Document.object (membersToDocuments c.members) =
      .object (c.fields.map fun f => (some f.1, f.2)) := by
    rw [members, fields]
    cases c.target with
    | none => rfl
    | some target => rfl
  rw [toDocument, hFields]
  apply Document.isKept_object
  intro m hm
  obtain ⟨f, hf, rfl⟩ := List.mem_map.mp hm
  refine ⟨rfl, ?_⟩
  simp only [fields, List.mem_append, List.mem_cons, List.not_mem_nil, or_false, List.mem_map,
    Option.mem_toList] at hf
  rcases hf with (rfl | rfl | rfl | rfl | rfl | rfl | rfl | rfl) | ⟨target, -, rfl⟩
  all_goals first | exact Document.isKept_text _ | exact Document.isKept_bool _

end Column

namespace Entity

variable (outer : Nat) (e : Entity)

theorem ofDocument?_toDocument : ofDocument? outer e.toDocument = some e := by
  have hColumns : Document.list? (Column.ofDocument? (outer + 2))
      (.array (e.columns.map Column.toDocument)) = some e.columns :=
    list?_array_map fun c _ => c.ofDocument?_toDocument (outer + 2)
  calc
    ofDocument? outer e.toDocument =
        (Document.list? (Column.ofDocument? (outer + 2))
          (.array (e.columns.map Column.toDocument))).bind fun columns =>
            some ⟨e.name, e.schema, e.readOnly, columns⟩ := rfl
    _ = some e := by rw [hColumns, Option.bind_some]

theorem isKept_toDocument : e.toDocument.IsKept := by
  apply Document.isKept_object
  intro m hm
  simp only [List.mem_cons, List.not_mem_nil, or_false] at hm
  rcases hm with rfl | rfl | rfl | rfl
  · exact ⟨rfl, Document.isKept_text e.name⟩
  · exact ⟨rfl, Document.isKept_text e.schema⟩
  · exact ⟨rfl, Document.isKept_bool e.readOnly⟩
  · refine ⟨rfl, Document.isKept_array ?_⟩
    intro d hd
    obtain ⟨c, -, rfl⟩ := List.mem_map.mp hd
    exact c.isKept_toDocument

theorem isKept_toDocuments (es : List Entity) :
    (Document.array (es.map toDocument)).IsKept := by
  apply Document.isKept_array
  intro d hd
  obtain ⟨e, -, rfl⟩ := List.mem_map.mp hd
  exact e.isKept_toDocument

end Entity

namespace Schema

variable (outer : Nat) (s : Schema)

theorem ofDocument?_toDocument : ofDocument? outer s.toDocument = some s := by
  have hEntities (es : List Entity) : Document.list? (Entity.ofDocument? (outer + 2))
      (.array (es.map Entity.toDocument)) = some es :=
    list?_array_map fun e _ => e.ofDocument?_toDocument (outer + 2)
  calc
    ofDocument? outer s.toDocument =
        (Document.list? (Entity.ofDocument? (outer + 2))
          (.array (s.tables.map Entity.toDocument))).bind fun tables =>
            (Document.list? (Entity.ofDocument? (outer + 2))
              (.array (s.views.map Entity.toDocument))).bind fun views =>
                some ⟨s.name, tables, views⟩ := rfl
    _ = some s := by rw [hEntities, hEntities, Option.bind_some, Option.bind_some]

theorem isKept_toDocument : s.toDocument.IsKept := by
  apply Document.isKept_object
  intro m hm
  simp only [List.mem_cons, List.not_mem_nil, or_false] at hm
  rcases hm with rfl | rfl | rfl
  · exact ⟨rfl, Document.isKept_text s.name⟩
  · exact ⟨rfl, Entity.isKept_toDocuments s.tables⟩
  · exact ⟨rfl, Entity.isKept_toDocuments s.views⟩

end Schema

namespace Catalog

variable (c : Catalog)

theorem ofDocument?_toDocument : ofDocument? c.toDocument = some c := by
  have hSchemas : Document.list? (Schema.ofDocument? 3)
      (.array (c.schemas.map Schema.toDocument)) = some c.schemas :=
    list?_array_map fun s _ => s.ofDocument?_toDocument 3
  calc
    ofDocument? c.toDocument =
        (Document.list? (Schema.ofDocument? 3) (.array (c.schemas.map Schema.toDocument))).bind
          fun schemas => some ⟨schemas⟩ := rfl
    _ = some c := by rw [hSchemas, Option.bind_some]

theorem isKept_toDocument : c.toDocument.IsKept := by
  apply Document.isKept_object
  intro m hm
  rw [List.mem_singleton.mp hm]
  refine ⟨rfl, Document.isKept_array ?_⟩
  intro d hd
  obtain ⟨s, -, rfl⟩ := List.mem_map.mp hd
  exact s.isKept_toDocument

/-- The text of a catalog is loaded as this catalog in its normal form. -/
theorem load_toText (h : c.normalized.check = .ok ()) : load c.toText = .ok c.normalized := by
  rw [load, toText, Document.toText, String.toList_ofList, c.isKept_toDocument.read?_write,
    Option.bind_some, ofDocument?_toDocument]
  simp only [h]

end Catalog

end TableGateway
