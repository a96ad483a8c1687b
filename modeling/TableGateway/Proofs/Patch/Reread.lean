import TableGateway.Patch.Document
import TableGateway.Proofs.Json.Value
import TableGateway.Proofs.Outcome
import TableGateway.Proofs.Patch.Split

/-!
# Patches that are read back

The text of a patch is read back as operations on the same paths, unless a value in it is nested too
deep. So it is about the ids that its operations are about.
-/

namespace TableGateway

open Json

namespace PatchOperation

variable {o : PatchOperation} {os : List PatchOperation} {id : String}

theorem ofJson_name (kind : PatchKind) : PatchKind.ofJson (.text kind.name) = .ok kind := by
  cases kind <;> rfl

theorem denotes_toDocument (h : ∀ v ∈ o.value, v.Denotes) : o.toDocument.Denotes := by
  obtain ⟨kind, path, value, source⟩ := o
  apply Document.denotesMembers_iff.mpr
  intro m hm
  simp only [List.mem_append, List.mem_cons, List.not_mem_nil, or_false, List.mem_map,
    Option.mem_toList] at hm
  rcases hm with ((rfl | rfl) | ⟨v, hv, rfl⟩) | ⟨s, -, rfl⟩
  · exact ⟨rfl, trivial⟩
  · exact ⟨rfl, trivial⟩
  · exact ⟨rfl, h v hv⟩
  · exact ⟨rfl, trivial⟩

theorem depth_toDocument_le {n : Nat} :
    o.toDocument.depth ≤ n + 1 ↔ ∀ v ∈ o.value, v.depth ≤ n := by
  obtain ⟨kind, path, value, source⟩ := o
  rw [toDocument, Document.depth, Nat.add_le_add_iff_right, Document.depthOfMembers_le_iff]
  constructor
  · intro h v hv
    apply h (some "value", v.toDocument)
    simp only [List.mem_append, List.mem_map, Option.mem_toList]
    exact .inl (.inr ⟨v, hv, rfl⟩)
  · intro h m hm
    simp only [List.mem_append, List.mem_cons, List.not_mem_nil, or_false, List.mem_map,
      Option.mem_toList] at hm
    rcases hm with ((rfl | rfl) | ⟨v, hv, rfl⟩) | ⟨s, -, rfl⟩
    · exact Nat.zero_le n
    · exact Nat.zero_le n
    · exact h v hv
    · exact Nat.zero_le n

theorem denotes_listToDocument (h : ∀ o ∈ os, ∀ v ∈ o.value, v.Denotes) :
    (listToDocument os).Denotes := by
  apply Document.denotesItems_iff.mpr
  intro d hd
  obtain ⟨o, ho, rfl⟩ := List.mem_map.mp hd
  exact denotes_toDocument (h o ho)

theorem depth_listToDocument_le {n : Nat} :
    (listToDocument os).depth ≤ n + 2 ↔ ∀ o ∈ os, ∀ v ∈ o.value, v.depth ≤ n := by
  rw [listToDocument, Document.depth, Nat.add_le_add_iff_right (n := 1),
    Document.depthOfItems_le_iff, List.forall_mem_map]
  exact forall₂_congr fun o _ => depth_toDocument_le

theorem ofObject_of_members {j : Json} {kind : PatchKind} {path : String} {source : Option String}
    (hSource : j.member? "from" = source.map .text)
    (hKind : j.member? "op" = some (.text kind.name))
    (hPath : j.member? "path" = some (.text path)) :
    ofObject j = .ok ⟨kind, path, (j.member? "value").bind valueOf, source⟩ := by
  have hSourceField : fieldOf sourceOf j "from" = .ok (source.map some) := by
    rw [fieldOf, hSource]
    cases source with
    | none => rfl
    | some s => rfl
  have hKindField : fieldOf PatchKind.ofJson j "op" = .ok (some kind) := by
    rw [fieldOf, hKind, Option.mapM_some, ofJson_name]
    rfl
  have hPathField : fieldOf textOf j "path" = .ok (some path) := by
    rw [fieldOf, hPath]
    rfl
  rw [ofObject, hSourceField, hKindField, hPathField]
  cases source with
  | none => rfl
  | some s => rfl

theorem ofJson_members (kind : PatchKind) (path : String) (value : Option Json)
    (source : Option String) :
    ∃ o, ofJson (.ofMembers
      ([("op", .text kind.name), ("path", .text path)] ++
        value.toList.map (fun v => ("value", v)) ++
        source.toList.map fun s => ("from", .text s))) = .ok o ∧ o.path = path := by
  have hSource (j : Json) (hj : j = .ofMembers
      ([("op", .text kind.name), ("path", .text path)] ++
        value.toList.map (fun v => ("value", v)) ++
        source.toList.map fun s => ("from", .text s))) :
      j.member? "from" = source.map .text ∧ j.member? "op" = some (.text kind.name) ∧
        j.member? "path" = some (.text path) := by
    subst hj
    rw [member?_ofMembers, member?_ofMembers, member?_ofMembers]
    cases value <;> cases source <;> exact ⟨rfl, rfl, rfl⟩
  obtain ⟨hFrom, hKind, hPath⟩ := hSource _ rfl
  exact ⟨_, ofObject_of_members hFrom hKind hPath, rfl⟩

/-- An operation is read back with its path. -/
theorem ofJson_reread (h : ∀ v ∈ o.value, v.Denotes) :
    ∃ j o', o.toDocument.reread.value? = some j ∧ ofJson j = .ok o' ∧ o'.path = o.path := by
  obtain ⟨kind, path, value, source⟩ := o
  cases value with
  | none =>
    obtain ⟨o', hOperation, hPath⟩ := ofJson_members kind path none source
    refine ⟨_, o', ?_, hOperation, hPath⟩
    cases source <;> rfl
  | some v =>
    obtain ⟨v', hv⟩ := Option.isSome_iff_exists.mp (Document.isSome_value?_reread _ (h v rfl))
    obtain ⟨o', hOperation, hPath⟩ := ofJson_members kind path (some v') source
    refine ⟨_, o', ?_, hOperation, hPath⟩
    cases source <;>
      simp [toDocument, Document.reread, Document.rereadMembers, Document.value?,
        Document.valuesOfMembers?, hv]

/-- The operations of a patch are read back with their paths, unless the patch is nested too
deep. -/
theorem readAll_reread (h : ∀ o ∈ os, ∀ v ∈ o.value, v.Denotes) :
    ∃ body os', (listToDocument os).reread.value? = some body ∧ readAll body = .ok os' ∧
      os'.map path = os.map path := by
  suffices hItems : ∃ js os', Document.valuesOfItems? (Document.rereadItems (os.map toDocument)) =
      some js ∧ js.mapM ofJson = .ok os' ∧ os'.map path = os.map path by
    obtain ⟨js, os', hValues, hRead, hPaths⟩ := hItems
    refine ⟨.array js, os', ?_, hRead, hPaths⟩
    rw [listToDocument, Document.reread, Document.value?, hValues]
    rfl
  induction os with
  | nil => exact ⟨[], [], rfl, rfl, rfl⟩
  | cons o os ih =>
    rw [List.forall_mem_cons] at h
    obtain ⟨j, o', hValue, hOperation, hPath⟩ := ofJson_reread h.1
    obtain ⟨js, os', hValues, hRead, hPaths⟩ := ih h.2
    refine ⟨j :: js, o' :: os', ?_, ?_, ?_⟩
    · rw [List.map_cons, Document.rereadItems, Document.valuesOfItems?, hValue, hValues]
    · rw [List.mapM_cons, hOperation, hRead]
      rfl
    · rw [List.map_cons, List.map_cons, hPath, hPaths]

theorem eq_of_valueOf {j v : Json} (h : valueOf j = some v) : v = j := by
  rw [valueOf.eq_def] at h
  split at h
  · cases h
  · exact (Option.some.inj h).symm

/-- A value that an operation is read with stands in what the operation is read from. -/
theorem value_of_ofJson {j : Json} (h : ofJson j = .ok o) :
    ∀ v ∈ o.value, (∃ items, j = .array items ∧ v ∈ items) ∨
      ∃ members name, j = .object members ∧ (name, v) ∈ members := by
  intro v hv
  cases j with
  | array items =>
    refine .inl ⟨items, rfl, ?_⟩
    rw [ofJson, ofItems.eq_def] at h
    split at h
    · cases h
    · obtain ⟨kind, -, h⟩ := Outcome.bind_eq_ok_iff.mp h
      split at h
      · cases h
      · obtain ⟨path, -, h⟩ := Outcome.bind_eq_ok_iff.mp h
        split at h
        · cases h
          cases hv
        · cases h
          rw [eq_of_valueOf hv]
          simp
        · obtain ⟨source, -, h⟩ := Outcome.bind_eq_ok_iff.mp h
          split at h
          · cases h
            rw [eq_of_valueOf hv]
            simp
          · cases h
  | object members =>
    rw [ofJson, ofObject] at h
    obtain ⟨source, -, h⟩ := Outcome.bind_eq_ok_iff.mp h
    obtain ⟨kind, -, h⟩ := Outcome.bind_eq_ok_iff.mp h
    obtain ⟨path, -, h⟩ := Outcome.bind_eq_ok_iff.mp h
    obtain ⟨kind, -, h⟩ := Outcome.bind_eq_ok_iff.mp h
    obtain ⟨path, -, h⟩ := Outcome.bind_eq_ok_iff.mp h
    cases h
    obtain ⟨w, hMember, hValue⟩ := Option.bind_eq_some_iff.mp hv
    rw [eq_of_valueOf hValue]
    exact .inr ⟨members, "value", rfl, mem_of_member? hMember⟩
  | _ => cases h

theorem value_of_readAll {body : Json} {n : Nat} (h : readAll body = .ok os)
    (hDenotes : body.Denotes) (hDepth : body.depth ≤ n + 2) :
    ∀ o ∈ os, ∀ v ∈ o.value, v.Denotes ∧ v.depth ≤ n := by
  cases body with
  | array items =>
    intro o ho v hv
    obtain ⟨j, hj, hOperation⟩ := Outcome.exists_of_mem_mapM h o ho
    have hWhole := denotes_array.mp hDenotes j hj
    have hShallow := depth_array_le.mp hDepth j hj
    rcases value_of_ofJson hOperation v hv with ⟨items, rfl, hMem⟩ | ⟨members, name, rfl, hMem⟩
    · exact ⟨denotes_array.mp hWhole v hMem, depth_array_le.mp hShallow v hMem⟩
    · exact ⟨denotes_object.mp hWhole _ hMem, depth_object_le.mp hShallow _ hMem⟩
  | _ => cases h

/-- The operations that the text of a patch is read as. -/
def readText? (text : String) : Option (List PatchOperation) :=
  (readValue? text).bind fun body => (readAll body).toOption

/-- The text is a patch, and all that it is split into is about this resource. -/
def IsAbout (id text : String) : Prop :=
  ∃ os subs, readText? text = some os ∧ SubPatch.split os = .ok subs ∧ ∀ sub ∈ subs, sub.id = id

theorem readText?_toText (h : ∀ o ∈ os, ∀ v ∈ o.value, v.Denotes)
    (hDepth : ∀ o ∈ os, ∀ v ∈ o.value, v.depth ≤ 125) :
    ∃ os', readText? (listToDocument os).toText = some os' ∧ os'.map path = os.map path := by
  obtain ⟨body, os', hValue, hRead, hPaths⟩ := readAll_reread h
  have hShallow : (listToDocument os).depth ≤ Document.maxDepth :=
    depth_listToDocument_le.mpr hDepth
  refine ⟨os', ?_, hPaths⟩
  rw [readText?, Document.readValue?_toText (denotes_listToDocument h), if_pos hShallow, hValue,
    Option.bind_some, hRead]
  rfl

theorem readText?_toText_eq_none (h : ∀ o ∈ os, ∀ v ∈ o.value, v.Denotes)
    (hDepth : ¬ ∀ o ∈ os, ∀ v ∈ o.value, v.depth ≤ 125) :
    readText? (listToDocument os).toText = none := by
  have hDeep : ¬ (listToDocument os).depth ≤ Document.maxDepth := fun hShallow =>
    hDepth (depth_listToDocument_le.mp hShallow)
  rw [readText?, Document.readValue?_toText (denotes_listToDocument h), if_neg hDeep]
  rfl

theorem map_segments_of_paths {os' : List PatchOperation} (h : os'.map path = os.map path) :
    os'.map segments = os.map segments := by
  have hSegments : segments = (fun p : String => segmentsOf p.toList) ∘ path := rfl
  rw [hSegments, ← List.map_map, ← List.map_map, h]

theorem isAbout_iff (h : ∀ o ∈ os, ∀ v ∈ o.value, v.Denotes) (hId : id ≠ "") :
    IsAbout id (listToDocument os).toText ↔
      (∀ o ∈ os, ∀ v ∈ o.value, v.depth ≤ 125) ∧ ∀ o ∈ os, o.id = id := by
  by_cases hDepth : ∀ o ∈ os, ∀ v ∈ o.value, v.depth ≤ 125
  · obtain ⟨os', hRead, hPaths⟩ := readText?_toText h hDepth
    have hIds : (∀ o ∈ os', o.id = id) ↔ ∀ o ∈ os, o.id = id := by
      have hMapped :=
        congrArg (List.map fun s : List String => s.headD "") (map_segments_of_paths hPaths)
      rw [List.map_map, List.map_map] at hMapped
      have hBoth (xs : List PatchOperation) : (∀ o ∈ xs, o.id = id) ↔
          ∀ x ∈ xs.map ((fun s : List String => s.headD "") ∘ segments), x = id := by
        rw [List.forall_mem_map]
        rfl
      rw [hBoth, hBoth, hMapped]
    rw [← hIds, and_iff_right hDepth]
    constructor
    · rintro ⟨found, subs, hFound, hSplit, hSubs⟩ o ho
      obtain rfl := Option.some.inj (hFound.symm.trans hRead)
      obtain ⟨-, rfl⟩ := SubPatch.split_eq_ok_iff.mp hSplit
      exact hSubs _ (SubPatch.mem_parts_iff.mpr ⟨o, ho, rfl⟩)
    · intro hAll
      refine ⟨os', _, hRead, SubPatch.split_eq_ok_iff.mpr ⟨?_, rfl⟩, ?_⟩
      · intro o ho
        rw [hAll o ho]
        exact hId
      · intro sub hSub
        obtain ⟨o, ho, rfl⟩ := SubPatch.mem_parts_iff.mp hSub
        exact hAll o ho
  · constructor
    · rintro ⟨found, subs, hFound, -, -⟩
      rw [readText?_toText_eq_none h hDepth] at hFound
      cases hFound
    · rintro ⟨hShallow, -⟩
      exact absurd hShallow hDepth

end PatchOperation

end TableGateway
