import TableGateway.Proofs.Patch.Order

/-!
# Patches and their parts

Splitting a patch is a partition of its operations by the first segments of their paths. It fails
at the first operation whose path begins with an empty one.
-/

namespace TableGateway

namespace PatchOperation

variable {o : PatchOperation} {id : String}

theorem segments_ne_nil (o : PatchOperation) : o.segments ≠ [] :=
  mt List.map_eq_nil_iff.mp (Text.splitChars_ne_nil _ _)

theorem head?_segments_eq_some_iff : o.segments.head? = some id ↔ o.id = id := by
  rw [PatchOperation.id]
  cases h : o.segments with
  | nil => exact absurd h o.segments_ne_nil
  | cons segment segments => simp

end PatchOperation

namespace SubPatch

variable {o : PatchOperation} {os : List PatchOperation} {subs : List SubPatch} {id : String}

theorem splitInto_eq_error_iff {fault : PatchFault} :
    splitInto subs os = .error fault ↔
      ∃ before o after, os = before ++ o :: after ∧ (∀ x ∈ before, x.id ≠ "") ∧ o.id = "" ∧
        fault = .noResource o.path := by
  induction os generalizing subs with
  | nil => simp [splitInto]
  | cons o os ih =>
    rw [splitInto]
    split
    · next hEmpty =>
      constructor
      · intro h
        exact ⟨[], o, os, rfl, List.forall_mem_nil _, hEmpty, (Except.error.inj h).symm⟩
      · rintro ⟨before, o', after, hCut, hBefore, -, rfl⟩
        cases before with
        | nil => rw [(List.cons.inj hCut).1]
        | cons x before =>
          obtain ⟨rfl, -⟩ := List.cons.inj hCut
          exact absurd hEmpty (hBefore o List.mem_cons_self)
    · next hId =>
      rw [ih]
      constructor
      · rintro ⟨before, o', after, rfl, hBefore, hRest⟩
        exact ⟨o :: before, o', after, rfl, List.forall_mem_cons.mpr ⟨hId, hBefore⟩, hRest⟩
      · rintro ⟨before, o', after, hCut, hBefore, hEmpty, hFault⟩
        cases before with
        | nil => exact absurd ((List.cons.inj hCut).1 ▸ hEmpty) hId
        | cons x before =>
          rw [List.forall_mem_cons] at hBefore
          exact ⟨before, o', after, (List.cons.inj hCut).2, hBefore.2, hEmpty, hFault⟩

theorem pairwise_idxOf_eraseDups {α : Type} [BEq α] [LawfulBEq α] (xs : List α) :
    xs.eraseDups.Pairwise fun a b => xs.idxOf a < xs.idxOf b := by
  induction xs using List.reverseRecOn with
  | nil => simp
  | append_singleton xs x ih =>
    have hKept : xs.eraseDups.Pairwise fun a b => (xs ++ [x]).idxOf a < (xs ++ [x]).idxOf b :=
      ih.imp_of_mem fun _ hb => idxOf_lt_idxOf_append (List.mem_eraseDups.mp hb)
    rw [List.eraseDups_append, List.removeAll]
    by_cases hx : x ∈ xs
    · simpa [hx] using hKept
    · have hNew : ∀ a ∈ xs.eraseDups, (xs ++ [x]).idxOf a < (xs ++ [x]).idxOf x := by
        intro a ha
        have ha := List.mem_eraseDups.mp ha
        rw [List.idxOf_append_of_mem ha, List.idxOf_append_of_notMem hx]
        exact Nat.lt_add_right _ (List.idxOf_lt_length_iff.mpr ha)
      have hLast : ([x].filter fun y => !xs.contains y).eraseDups = [x] := by
        simp [hx, List.eraseDups_cons]
      rw [hLast, List.pairwise_append]
      exact ⟨hKept, List.pairwise_singleton _ x, fun a ha b hb => by
        rw [List.mem_singleton.mp hb]
        exact hNew a ha⟩

theorem perm_insert (id : String) (o : PatchOperation) (subs : List SubPatch) :
    ((insert id o subs).flatMap SubPatch.operations).Perm
      (subs.flatMap SubPatch.operations ++ [o]) := by
  induction subs with
  | nil => exact .refl _
  | cons sub subs ih =>
    rw [insert]
    split
    · rw [List.flatMap_cons, List.flatMap_cons, List.append_assoc, List.append_assoc]
      exact List.perm_append_comm.append_left sub.operations
    · rw [List.flatMap_cons, List.flatMap_cons, List.append_assoc]
      exact ih.append_left sub.operations

theorem perm_parts (os : List PatchOperation) :
    ((parts os).flatMap SubPatch.operations).Perm os := by
  induction os using List.reverseRecOn with
  | nil => exact .refl _
  | append_singleton os o ih =>
    rw [← insert_parts]
    exact (perm_insert o.id o (parts os)).trans (ih.append_right [o])

/-- Operations that share no id are split each for themselves. -/
theorem parts_append {os' : List PatchOperation} (h : ∀ o ∈ os, ∀ o' ∈ os', o.id ≠ o'.id) :
    parts (os ++ os') = parts os ++ parts os' := by
  have hNew : ∀ id ∈ os'.map PatchOperation.id, id ∉ os.map PatchOperation.id := by
    intro id hId hOld
    obtain ⟨o', ho', rfl⟩ := List.mem_map.mp hId
    obtain ⟨o, ho, hEq⟩ := List.mem_map.mp hOld
    exact h o ho o' ho' hEq
  have hAll : (os'.map PatchOperation.id).removeAll (os.map PatchOperation.id) =
      os'.map PatchOperation.id := by
    rw [List.removeAll, List.filter_eq_self]
    intro id hId
    simpa using hNew id hId
  have hLeft : ∀ id ∈ (os.map PatchOperation.id).eraseDups, part (os ++ os') id = part os id := by
    intro id hId
    obtain ⟨o, ho, rfl⟩ := List.mem_map.mp (List.mem_eraseDups.mp hId)
    have hNone : os'.filter (fun x => decide (x.id = o.id)) = [] := by
      rw [List.filter_eq_nil_iff]
      intro x hx
      simpa using Ne.symm (h o ho x hx)
    rw [part, part, List.filter_append, hNone, List.append_nil]
  have hRight : ∀ id ∈ (os'.map PatchOperation.id).eraseDups,
      part (os ++ os') id = part os' id := by
    intro id hId
    obtain ⟨o', ho', rfl⟩ := List.mem_map.mp (List.mem_eraseDups.mp hId)
    have hNone : os.filter (fun x => decide (x.id = o'.id)) = [] := by
      rw [List.filter_eq_nil_iff]
      intro x hx
      simpa using h x hx o' ho'
    rw [part, part, List.filter_append, hNone, List.nil_append]
  rw [parts, parts, parts, List.map_append, List.eraseDups_append, hAll, List.map_append,
    List.map_congr_left hLeft, List.map_congr_left hRight]

/-- Sub-patches that each have operations with its own id only are the parts of all of them. -/
theorem parts_flatMap_operations (hNodup : (subs.map SubPatch.id).Nodup)
    (hNonempty : ∀ sub ∈ subs, sub.operations ≠ [])
    (hIds : ∀ sub ∈ subs, ∀ o ∈ sub.operations, o.id = sub.id) :
    parts (subs.flatMap SubPatch.operations) = subs := by
  induction subs with
  | nil => rfl
  | cons sub subs ih =>
    rw [List.map_cons, List.nodup_cons] at hNodup
    rw [List.forall_mem_cons] at hNonempty hIds
    have hApart : ∀ o ∈ sub.operations, ∀ o' ∈ subs.flatMap SubPatch.operations,
        o.id ≠ o'.id := by
      intro o ho o' ho' hEq
      obtain ⟨other, hOther, ho'⟩ := List.mem_flatMap.mp ho'
      rw [hIds.1 o ho, hIds.2 other hOther o' ho'] at hEq
      exact hNodup.1 (hEq ▸ List.mem_map_of_mem hOther)
    rw [List.flatMap_cons, parts_append hApart, ih hNodup.2 hNonempty.2 hIds.2,
      parts_eq_singleton hNonempty.1 hIds.1]
    rfl

/-- Where the first operation stands whose path begins with this segment. -/
def firstPlace (os : List PatchOperation) (id : String) : Nat :=
  os.findIdx fun o => o.segments.head? = some id

theorem firstPlace_eq_idxOf (os : List PatchOperation) (id : String) :
    firstPlace os id = (os.map PatchOperation.id).idxOf id := by
  have hSame (o : PatchOperation) : decide (o.segments.head? = some id) = (o.id == id) := by
    rw [Bool.eq_iff_iff]
    simp [PatchOperation.head?_segments_eq_some_iff]
  rw [firstPlace, List.idxOf, List.findIdx_map]
  exact congrArg (List.findIdx · os) (funext hSame)

/-- A patch is split unless a path begins with an empty segment. Its parts stand in the order in
which their ids first occur, each with the operations that have its id in the order of the patch,
and they are their own parts. -/
theorem split_partitions (os : List PatchOperation) :
    ((∃ fault, split os = .error fault) ↔ ∃ o ∈ os, o.segments.head? = some "") ∧
    ∀ subs, split os = .ok subs →
      (∀ id, id ∈ subs.map SubPatch.id ↔ ∃ o ∈ os, o.segments.head? = some id) ∧
      (subs.map SubPatch.id).Nodup ∧
      (subs.Pairwise fun s t => firstPlace os s.id < firstPlace os t.id) ∧
      (∀ s ∈ subs, s.operations = os.filter fun o => o.segments.head? = some s.id) ∧
      (subs.flatMap SubPatch.operations).Perm os ∧
      split (subs.flatMap SubPatch.operations) = .ok subs := by
  simp only [PatchOperation.head?_segments_eq_some_iff]
  constructor
  · constructor
    · rintro ⟨fault, hFault⟩
      obtain ⟨before, o, after, rfl, -, hEmpty, -⟩ := splitInto_eq_error_iff.mp hFault
      exact ⟨o, by simp, hEmpty⟩
    · rintro ⟨o, ho, hEmpty⟩
      cases hSplit : split os with
      | error fault => exact ⟨fault, rfl⟩
      | ok subs => exact absurd hEmpty ((split_eq_ok_iff.mp hSplit).1 o ho)
  · intro subs hSplit
    obtain ⟨hIds, rfl⟩ := split_eq_ok_iff.mp hSplit
    have hPerm := perm_parts os
    have hNodup : ((parts os).map SubPatch.id).Nodup := by
      rw [map_id_parts]
      exact nodup_eraseDups _
    have hAgain : parts ((parts os).flatMap SubPatch.operations) = parts os :=
      parts_flatMap_operations hNodup (fun _ => operations_ne_nil) (fun _ => id_of_mem_operations)
    refine ⟨fun id => ?_, hNodup, ?_, fun s hs => ?_, hPerm, ?_⟩
    · rw [map_id_parts, List.mem_eraseDups, List.mem_map]
    · have hOrder := pairwise_idxOf_eraseDups (os.map PatchOperation.id)
      rw [← map_id_parts, List.pairwise_map] at hOrder
      simpa only [firstPlace_eq_idxOf] using hOrder
    · obtain ⟨o, -, rfl⟩ := mem_parts_iff.mp hs
      rfl
    · exact split_eq_ok_iff.mpr ⟨fun o ho => hIds o (hPerm.mem_iff.mp ho), hAgain.symm⟩

/-- Two spellings of the path to one resource, and a resource between them whose id has a slash. -/
def spelledApart : List PatchOperation :=
  [{ kind := .add, path := "/9/Name", value := some (.text "a") },
    { kind := .remove, path := "/x~1y/Name" },
    { kind := .remove, path := "9/Phone" }]

theorem spelledApart_partitions :
    ∃ subs, split spelledApart = .ok subs ∧ subs.map SubPatch.id = ["9", "x/y"] ∧
      (subs.flatMap SubPatch.operations).Perm spelledApart ∧
      split (subs.flatMap SubPatch.operations) = .ok subs := by
  have hSplit : split spelledApart = .ok (parts spelledApart) :=
    split_eq_ok_iff.mpr ⟨by decide, rfl⟩
  obtain ⟨-, -, -, -, hPerm, hAgain⟩ := (split_partitions spelledApart).2 _ hSplit
  exact ⟨_, hSplit, by rw [map_id_parts]; decide, hPerm, hAgain⟩

end SubPatch

end TableGateway
