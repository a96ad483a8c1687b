import Mathlib.Data.List.TakeDrop
import Mathlib.Data.List.TakeWhile
import TableGateway.Proofs.Catalog.Document
import TableGateway.Proofs.Catalog.Lookup
import TableGateway.Query.Include

/-!
# Paths of includes

Every hop of an include joins a foreign key with the primary key of an entity that its target names.
A foreign key of the parent leads to the child by the rule by which catalogs are checked. One of the
child leads to the parent by this rule only where its target cannot mean another entity.
-/

namespace TableGateway

namespace Text

theorem not_mem_of_mem_splitChars {p : Char → Bool} {cs piece : List Char}
    (h : piece ∈ splitChars p cs) : ∀ c ∈ piece, p c = false := by
  induction cs generalizing piece with
  | nil =>
    rw [splitChars, List.mem_singleton] at h
    simp [h]
  | cons c cs ih =>
    rw [splitChars] at h
    split at h
    · rcases List.mem_cons.mp h with rfl | hMem
      · simp
      · exact ih hMem
    · next hPlain =>
      split at h
      · rw [List.mem_singleton] at h
        simpa [h] using hPlain
      · next first rest hSplit =>
        rcases List.mem_cons.mp h with rfl | hMem
        · rw [List.forall_mem_cons]
          exact ⟨Bool.eq_false_iff.mpr hPlain, ih (hSplit ▸ List.mem_cons_self)⟩
        · exact ih (hSplit ▸ List.mem_cons_of_mem first hMem)

theorem mem_of_mem_trim {c : Char} {cs : List Char} (h : c ∈ trim cs) : c ∈ cs := by
  rw [trim, trimEnd, List.mem_reverse] at h
  have hEnd := (List.dropWhile_sublist isBlank).subset h
  rw [List.mem_reverse] at hEnd
  exact (List.dropWhile_sublist isBlank).subset hEnd

theorem cut?_eq_none {sep : Char} {s : String} (h : sep ∉ s.toList) : cut? sep s = none := by
  have hSpan : s.toList.span (· != sep) = (s.toList, []) := by
    rw [List.span_eq_takeWhile_dropWhile, List.takeWhile_eq_self_iff.mpr,
      List.dropWhile_eq_nil_iff.mpr]
    · intro c hc
      exact bne_iff_ne.mpr fun hEq => h (hEq ▸ hc)
    · intro c hc
      exact bne_iff_ne.mpr fun hEq => h (hEq ▸ hc)
  rw [cut?, hSpan]

end Text

variable {catalog : Catalog} {e parent child : Entity} {raw : String} {j : Join} {js : List Join}

/-- A foreign key of `owner` cannot but mean `other`: that is what its schema has under this name,
or no other entity is named by the target. -/
def Column.CanOnlyMean (catalog : Catalog) (owner other : Entity) (c : Column) : Prop :=
  catalog.entity? owner.schema other.name = some other ∨
    ∀ x ∈ catalog.entities, c.refersTo x = true → x = other

/-- Nothing but the entity itself is found by its names. -/
def Entity.Alone (catalog : Catalog) (e : Entity) : Prop :=
  ∀ x, catalog.entity? e.schema e.name = some x → x = e

namespace Join

/-- The columns of a hop. A foreign key of the parent comes first. -/
inductive Hop (catalog : Catalog) (parent child : Entity) : Join → Prop
  | own {fk key : Column} (isColumn : fk ∈ parent.columns)
      (leads : fk.resolved? catalog parent = some child) (isKey : child.primaryKey? = some key) :
      Hop catalog parent child (between parent child fk key)
  | back {fk key : Column} (noOwn : ∀ c ∈ parent.columns, c.resolved? catalog parent ≠ some child)
      (isColumn : fk ∈ child.columns) (refers : fk.refersTo parent = true)
      (leads : fk.CanOnlyMean catalog child parent → fk.resolved? catalog child = some parent)
      (isKey : parent.primaryKey? = some key) :
      Hop catalog parent child (between parent child key fk)

/-- Hops one after the other, each from the entity that the hop before it led to. -/
inductive Path (catalog : Catalog) : Entity → List Entity → List Join → Prop
  | nil (parent : Entity) : Path catalog parent [] []
  | cons {parent child : Entity} {children : List Entity} {j : Join} {js : List Join}
      (isEntity : child ∈ catalog.entities) (hop : Hop catalog parent child j)
      (rest : Path catalog child children js) :
      Path catalog parent (child :: children) (j :: js)

theorem cut?_of_mem_hopNames {name : String} (h : name ∈ hopNames raw) :
    Text.cut? '.' name = none := by
  obtain ⟨piece, hPiece, rfl⟩ := List.mem_map.mp h
  obtain ⟨cs, hCs, rfl⟩ := List.mem_map.mp hPiece
  apply Text.cut?_eq_none
  intro hDot
  rw [Text.trimmed, String.toList_ofList, String.toList_ofList] at hDot
  have hSeparator := Text.not_mem_of_mem_splitChars hCs '.' (Text.mem_of_mem_trim hDot)
  cases hSeparator

theorem requireKey_map_eq_ok {f : Column → Join} (h : e.requireKey.map f = .ok j) :
    ∃ key, e.primaryKey? = some key ∧ f key = j := by
  obtain ⟨key, hKey, hJoin⟩ := Outcome.map_eq_ok_iff.mp h
  rw [Entity.requireKey] at hKey
  split at hKey
  · next hSome =>
    cases hKey
    exact ⟨key, hSome, hJoin⟩
  · cases hKey

theorem hop_of_eq_ok (hValid : catalog.Valid) (hParent : parent ∈ catalog.entities)
    {name : String} (hPlain : Text.cut? '.' name = none)
    (hChild : catalog.related? parent.schema name = some child) (h : hop parent child = .ok j) :
    Hop catalog parent child j := by
  rw [Join.hop] at h
  split at h
  · next fk hOwn =>
    obtain ⟨key, hKey, rfl⟩ := requireKey_map_eq_ok h
    have hColumn := List.mem_of_find?_eq_some hOwn
    have hRefers : fk.refersTo child = true := by simpa using List.find?_some hOwn
    exact .own hColumn (hValid.resolved_of_related hParent hColumn hRefers hPlain hChild) hKey
  · next hNone =>
    split at h
    · next fk hBack =>
      obtain ⟨key, hKey, rfl⟩ := requireKey_map_eq_ok h
      have hColumn := List.mem_of_find?_eq_some hBack
      have hRefers : fk.refersTo parent = true := by simpa using List.find?_some hBack
      have hOthers : ∀ c ∈ parent.columns, c.resolved? catalog parent ≠ some child := by
        intro c hc hLeads
        have hUnrelated := List.find?_eq_none.mp hNone c hc
        exact hUnrelated (hValid.refersTo_of_resolved hLeads)
      have hMem := hValid.mem_of_related? hChild
      exact .back hOthers hColumn hRefers
        (hValid.resolved_of_unambiguous hMem hColumn hRefers) hKey
    · cases h

/-- The entities of a path are new ones, up to the case of their names. -/
theorem path_of_eq_ok (hValid : catalog.Valid) {names visited : List String}
    (hPlain : ∀ name ∈ names, Text.cut? '.' name = none) (hParent : parent ∈ catalog.entities)
    (h : path catalog raw visited parent names = .ok js) :
    ∃ children, Path catalog parent children js ∧
      (∀ child ∈ children, child.Alone catalog ∧ Text.lowercase child.name ∉ visited) ∧
      (children.map fun child => Text.lowercase child.name).Nodup := by
  induction names generalizing visited parent js with
  | nil =>
    cases h
    exact ⟨[], .nil parent, by simp, List.nodup_nil⟩
  | cons name names ih =>
    rw [List.forall_mem_cons] at hPlain
    rw [path] at h
    split at h
    · cases h
    · split at h
      · cases h
      · next child hChild =>
        split at h
        · cases h
        · next hNew =>
          obtain ⟨j, hHop, h⟩ := Outcome.bind_eq_ok_iff.mp h
          obtain ⟨rest, hRest, h⟩ := Outcome.bind_eq_ok_iff.mp h
          cases h
          have hMem := hValid.mem_of_related? hChild
          obtain ⟨children, hPath, hFresh, hNodup⟩ := ih hPlain.2 hMem hRest
          refine ⟨child :: children,
            .cons hMem (hop_of_eq_ok hValid hParent hPlain.1 hChild hHop) hPath, ?_, ?_⟩
          · rw [List.forall_mem_cons]
            constructor
            · exact ⟨fun x => hValid.eq_of_related? hPlain.1 hChild, by simpa using hNew⟩
            · intro x hx
              obtain ⟨hAlone, hNotVisited⟩ := hFresh x hx
              exact ⟨hAlone, fun hVisited => hNotVisited (List.mem_append_left _ hVisited)⟩
          · rw [List.map_cons, List.nodup_cons]
            constructor
            · intro hAgain
              obtain ⟨x, hx, hName⟩ := List.mem_map.mp hAgain
              exact (hFresh x hx).2 (List.mem_append_right _ (List.mem_singleton.mpr hName))
            · exact hNodup

theorem path_of_compile (hValid : catalog.Valid) (hEntity : e ∈ catalog.entities)
    (h : compile catalog e raw = .ok js) :
    ∃ children, Path catalog e children js ∧ (∀ child ∈ children, child.Alone catalog) ∧
      ((e :: children).map fun x => Text.lowercase x.name).Nodup := by
  rw [compile] at h
  split at h
  · cases h
    exact ⟨[], .nil e, by simp, by simp⟩
  · obtain ⟨children, hPath, hFresh, hNodup⟩ :=
      path_of_eq_ok hValid (fun _ => cut?_of_mem_hopNames) hEntity h
    refine ⟨children, hPath, fun child hChild => (hFresh child hChild).1, ?_⟩
    rw [List.map_cons, List.nodup_cons]
    constructor
    · intro hAgain
      obtain ⟨x, hx, hName⟩ := List.mem_map.mp hAgain
      exact (hFresh x hx).2 (List.mem_singleton.mpr hName)
    · exact hNodup

/-- Every include is a path of hops along foreign keys. -/
theorem includes_follow_references {text : String} (hLoad : Catalog.load text = .ok catalog)
    (hEntity : e ∈ catalog.entities) (hCompile : compile catalog e raw = .ok js) :
    ∃ children, Path catalog e children js := by
  obtain ⟨children, hPath, -⟩ := path_of_compile (Catalog.valid_of_load hLoad) hEntity hCompile
  exact ⟨children, hPath⟩

def sampleId : Column := { name := "ID", type := .integer, primaryKey := true }

def sampleReference : Column :=
  { name := "CustomerID", type := .integer, foreignKey := true, target := some "customers" }

def sampleCustomers (schema : String) : Entity := ⟨"customers", schema, false, [sampleId]⟩

def sampleOrders : Entity := ⟨"orders", "sales", false, [sampleId, sampleReference]⟩

def sampleContracts : Entity := ⟨"contracts", "hr", false, [sampleId, sampleReference]⟩

def sampleSchemas : Catalog :=
  ⟨[⟨"sales", [sampleCustomers "sales", sampleOrders], []⟩,
    ⟨"hr", [sampleCustomers "hr", sampleContracts], []⟩]⟩

theorem load_sampleSchemas : Catalog.load sampleSchemas.toText = .ok sampleSchemas :=
  Catalog.load_toText sampleSchemas (by decide +kernel)

theorem orders_follow_references :
    Catalog.load sampleSchemas.toText = .ok sampleSchemas ∧
    sampleCustomers "sales" ∈ sampleSchemas.entities ∧
    compile sampleSchemas (sampleCustomers "sales") "orders" =
      .ok [between (sampleCustomers "sales") sampleOrders sampleId sampleReference] ∧
    ∃ children, Path sampleSchemas (sampleCustomers "sales") children
      [between (sampleCustomers "sales") sampleOrders sampleId sampleReference] := by
  have hEntity : sampleCustomers "sales" ∈ sampleSchemas.entities := by decide
  have hCompile : compile sampleSchemas (sampleCustomers "sales") "orders" =
      .ok [between (sampleCustomers "sales") sampleOrders sampleId sampleReference] := rfl
  exact ⟨load_sampleSchemas, hEntity, hCompile,
    includes_follow_references load_sampleSchemas hEntity hCompile⟩

/-- The contracts of one schema are joined with the customers of the other, although their foreign
key leads to the customers of their own. -/
theorem contracts_miss_reference :
    Catalog.load sampleSchemas.toText = .ok sampleSchemas ∧
    sampleCustomers "sales" ∈ sampleSchemas.entities ∧
    compile sampleSchemas (sampleCustomers "sales") "contracts" =
      .ok [between (sampleCustomers "sales") sampleContracts sampleId sampleReference] ∧
    sampleReference.resolved? sampleSchemas sampleContracts = some (sampleCustomers "hr") ∧
    sampleCustomers "hr" ≠ sampleCustomers "sales" := by
  exact ⟨load_sampleSchemas, by decide, rfl, rfl, by decide⟩

end Join

end TableGateway
