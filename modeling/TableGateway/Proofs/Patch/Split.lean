import Mathlib.Data.List.Nodup
import TableGateway.Patch.Split

/-!
# The parts of a patch

A patch can be split when every path begins with an id. Its parts then stand in the order in which
their ids first occur, and each has the operations with its id in the order of the patch.
-/

namespace TableGateway

namespace SubPatch

variable {o : PatchOperation} {os : List PatchOperation} {ids : List String}

theorem nodup_eraseDups {α : Type} [BEq α] [LawfulBEq α] (xs : List α) : xs.eraseDups.Nodup := by
  induction h : xs.length using Nat.strongRecOn generalizing xs with
  | ind n ih =>
    cases xs with
    | nil => simp
    | cons x xs =>
      have hShorter : (xs.filter fun y => !y == x).length < n := by
        rw [← h, List.length_cons]
        exact Nat.lt_succ_of_le (List.length_filter_le _ xs)
      rw [List.eraseDups_cons, List.nodup_cons, List.mem_eraseDups]
      exact ⟨by simp, ih _ hShorter _ rfl⟩

def part (os : List PatchOperation) (id : String) : SubPatch := ⟨id, os.filter (·.id = id)⟩

/-- The parts of a patch in the order in which their ids first occur. -/
def parts (os : List PatchOperation) : List SubPatch :=
  (os.map PatchOperation.id).eraseDups.map (part os)

theorem part_append_of_ne {id : String} (h : id ≠ o.id) : part (os ++ [o]) id = part os id := by
  simp [part, h.symm]

theorem part_append_self : part (os ++ [o]) o.id = ⟨o.id, (part os o.id).operations ++ [o]⟩ := by
  simp [part]

theorem insert_of_not_mem (h : o.id ∉ ids) :
    insert o.id o (ids.map (part os)) = ids.map (part os) ++ [⟨o.id, [o]⟩] := by
  induction ids with
  | nil => rfl
  | cons id ids ih =>
    rw [List.mem_cons, not_or] at h
    rw [List.map_cons, insert, if_neg (by exact Ne.symm h.1), ih h.2, List.cons_append]

theorem insert_of_mem (hNodup : ids.Nodup) (h : o.id ∈ ids) :
    insert o.id o (ids.map (part os)) = ids.map (part (os ++ [o])) := by
  induction ids with
  | nil => exact absurd h List.not_mem_nil
  | cons id ids ih =>
    rw [List.nodup_cons] at hNodup
    rw [List.map_cons, List.map_cons, insert]
    by_cases hId : id = o.id
    · rw [if_pos (by exact hId), hId, part_append_self]
      have hRest : ∀ x ∈ ids, part os x = part (os ++ [o]) x := fun x hx =>
        (part_append_of_ne (by rintro rfl; exact hNodup.1 (hId ▸ hx))).symm
      rw [List.map_congr_left hRest]
      rfl
    · have hMem := (List.mem_cons.mp h).resolve_left (Ne.symm hId)
      rw [if_neg (by exact hId), ih hNodup.2 hMem, part_append_of_ne hId]

/-- One more operation goes to the part with its id, or begins a part of its own. -/
theorem insert_parts (os : List PatchOperation) (o : PatchOperation) :
    insert o.id o (parts os) = parts (os ++ [o]) := by
  have hIds : ((os ++ [o]).map PatchOperation.id).eraseDups =
      (os.map PatchOperation.id).eraseDups ++
        if o.id ∈ os.map PatchOperation.id then [] else [o.id] := by
    rw [List.map_append, List.eraseDups_append, List.removeAll, List.map_singleton]
    by_cases hMem : o.id ∈ os.map PatchOperation.id
    · rw [if_pos hMem, List.filter_cons_of_neg (by simpa using hMem), List.filter_nil]
      rfl
    · rw [if_neg hMem, List.filter_cons_of_pos (by simpa using hMem), List.filter_nil]
      rfl
  rw [parts, parts, hIds]
  by_cases hMem : o.id ∈ os.map PatchOperation.id
  · rw [if_pos hMem, List.append_nil]
    exact insert_of_mem (nodup_eraseDups _) (List.mem_eraseDups.mpr hMem)
  · have hOthers : ∀ id ∈ (os.map PatchOperation.id).eraseDups,
        part (os ++ [o]) id = part os id := fun id hId =>
      part_append_of_ne (by rintro rfl; exact hMem (List.mem_eraseDups.mp hId))
    have hNone : (os.filter fun x => decide (x.id = o.id)) = [] := by
      simpa using hMem
    rw [if_neg hMem, List.map_append, List.map_congr_left hOthers,
      insert_of_not_mem (fun h => hMem (List.mem_eraseDups.mp h))]
    simp [part, hNone]

theorem splitInto_parts_eq_ok_iff (seen : List PatchOperation) {subs : List SubPatch} :
    splitInto (parts seen) os = .ok subs ↔ (∀ o ∈ os, o.id ≠ "") ∧ subs = parts (seen ++ os) := by
  induction os generalizing seen with
  | nil =>
    rw [splitInto, List.append_nil]
    exact ⟨fun h => ⟨by simp, (Except.ok.inj h).symm⟩, fun h => congrArg Except.ok h.2.symm⟩
  | cons o os ih =>
    rw [splitInto, List.forall_mem_cons]
    split
    · next hEmpty => simp [hEmpty]
    · next hId =>
      rw [insert_parts, ih, List.append_assoc, List.singleton_append]
      simp [hId]

theorem split_eq_ok_iff {subs : List SubPatch} :
    split os = .ok subs ↔ (∀ o ∈ os, o.id ≠ "") ∧ subs = parts os :=
  splitInto_parts_eq_ok_iff []

theorem mem_parts_iff {sub : SubPatch} :
    sub ∈ parts os ↔ ∃ o ∈ os, sub = part os o.id := by
  simp [parts, eq_comm]

theorem operations_ne_nil {sub : SubPatch} (h : sub ∈ parts os) : sub.operations ≠ [] := by
  obtain ⟨o, ho, rfl⟩ := mem_parts_iff.mp h
  exact List.ne_nil_of_mem (List.mem_filter.mpr ⟨ho, decide_eq_true rfl⟩)

theorem id_of_mem_operations {sub : SubPatch} (h : sub ∈ parts os) :
    ∀ o ∈ sub.operations, o.id = sub.id := by
  obtain ⟨first, -, rfl⟩ := mem_parts_iff.mp h
  intro o ho
  exact of_decide_eq_true (List.mem_filter.mp ho).2

theorem parts_eq_singleton {id : String} (hNonempty : os ≠ []) (h : ∀ o ∈ os, o.id = id) :
    parts os = [⟨id, os⟩] := by
  have hAll : os.filter (fun o => decide (o.id = id)) = os :=
    List.filter_eq_self.mpr fun o ho => by simp [h o ho]
  have hIds : os.map PatchOperation.id = List.replicate os.length id :=
    List.eq_replicate_iff.mpr ⟨List.length_map _, by simpa using h⟩
  obtain ⟨n, hLength⟩ := Nat.exists_eq_succ_of_ne_zero (mt List.length_eq_zero_iff.mp hNonempty)
  have hOnce : (List.replicate (n + 1) id).eraseDups = [id] := by
    simp [List.replicate_succ, List.eraseDups_cons]
  rw [parts, hIds, hLength, hOnce, List.map_singleton, part, hAll]

end SubPatch

end TableGateway
