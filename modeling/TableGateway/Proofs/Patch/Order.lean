import Mathlib.Data.List.Induction
import TableGateway.Proofs.Patch.Split

/-!
# The order of operations

The parts of a patch bring its operations out of their order: one that stands later overtakes those
between it and the first one with its id. A run of the parts still ends where a run of the patch
does, as long as an operation may be exchanged with those that it overtakes.
-/

namespace TableGateway.SubPatch

variable {σ : Type} {f : σ → PatchOperation → σ} {o : PatchOperation} {os : List PatchOperation}
  {subs : List SubPatch}

/-- Runs the operations of one part after the other. -/
def run (f : σ → PatchOperation → σ) (subs : List SubPatch) (s : σ) : σ :=
  subs.foldl (fun s sub => sub.operations.foldl f s) s

/-- Where the part with this id stands among all parts. -/
def place (subs : List SubPatch) (id : String) : Nat := (subs.map SubPatch.id).idxOf id

/-- The order of the two does not matter. -/
def Exchange (f : σ → PatchOperation → σ) (o o' : PatchOperation) : Prop :=
  ∀ s, f (f s o) o' = f (f s o') o

theorem foldl_exchange (h : ∀ o' ∈ os, Exchange f o' o) (s : σ) :
    os.foldl f (f s o) = f (os.foldl f s) o := by
  induction os generalizing s with
  | nil => rfl
  | cons o' os ih =>
    rw [List.forall_mem_cons] at h
    rw [List.foldl_cons, List.foldl_cons, ← h.1 s]
    exact ih h.2 (f s o')

theorem run_exchange (h : ∀ sub ∈ subs, ∀ o' ∈ sub.operations, Exchange f o' o) (s : σ) :
    run f subs (f s o) = f (run f subs s) o := by
  induction subs generalizing s with
  | nil => rfl
  | cons sub subs ih =>
    rw [List.forall_mem_cons] at h
    rw [run, List.foldl_cons, foldl_exchange h.1]
    exact ih h.2 (sub.operations.foldl f s)

/-- An operation that goes to its part overtakes the parts behind that. -/
theorem run_insert (hNodup : (subs.map SubPatch.id).Nodup)
    (h : ∀ sub ∈ subs, place subs o.id < place subs sub.id →
      ∀ o' ∈ sub.operations, Exchange f o' o) (s : σ) :
    run f (insert o.id o subs) s = f (run f subs s) o := by
  induction subs generalizing s with
  | nil => rfl
  | cons sub subs ih =>
    rw [List.map_cons, List.nodup_cons] at hNodup
    have hOther : ∀ x ∈ subs, sub.id ≠ x.id := by
      rintro x hx hId
      exact hNodup.1 (hId ▸ List.mem_map_of_mem hx)
    rw [insert]
    split
    · next hId =>
      have hBehind : ∀ x ∈ subs, ∀ o' ∈ x.operations, Exchange f o' o := by
        intro x hx
        apply h x (List.mem_cons_of_mem sub hx)
        simp [place, hId, hId ▸ hOther x hx]
      rw [run, List.foldl_cons, List.foldl_append]
      exact run_exchange hBehind (sub.operations.foldl f s)
    · next hId =>
      apply ih hNodup.2
      intro x hx hPlace
      apply h x (List.mem_cons_of_mem sub hx)
      simpa [place, List.idxOf_cons, hId, hOther x hx] using hPlace

theorem idxOf_lt_idxOf_append {α : Type} [BEq α] [LawfulBEq α] {xs ys : List α} {a b : α}
    (hb : b ∈ xs) (h : xs.idxOf a < xs.idxOf b) : (xs ++ ys).idxOf a < (xs ++ ys).idxOf b := by
  have ha : a ∈ xs :=
    List.idxOf_lt_length_iff.mp (Nat.lt_trans h (List.idxOf_lt_length_iff.mpr hb))
  rwa [List.idxOf_append_of_mem ha, List.idxOf_append_of_mem hb]

theorem map_id_parts (os : List PatchOperation) :
    (parts os).map SubPatch.id = (os.map PatchOperation.id).eraseDups := by
  rw [parts, List.map_map]
  exact List.map_id _

theorem map_id_parts_append (os : List PatchOperation) (o : PatchOperation) :
    ∃ new, (parts (os ++ [o])).map SubPatch.id = (parts os).map SubPatch.id ++ new := by
  rw [map_id_parts, map_id_parts, List.map_append, List.eraseDups_append]
  exact ⟨_, rfl⟩

/-- A part keeps its place when an operation comes to the patch, and a new part comes last. -/
theorem place_parts_append_lt {a b : String} (hb : b ∈ os.map PatchOperation.id)
    (h : place (parts os) a < place (parts os) b) :
    place (parts (os ++ [o])) a < place (parts (os ++ [o])) b := by
  obtain ⟨new, hIds⟩ := map_id_parts_append os o
  have hMem : b ∈ (parts os).map SubPatch.id := by
    rw [map_id_parts, List.mem_eraseDups]
    exact hb
  rw [place, place, hIds]
  exact idxOf_lt_idxOf_append hMem h

theorem run_parts
    (h : os.Pairwise fun o o' => place (parts os) o'.id < place (parts os) o.id → Exchange f o o')
    (s : σ) : run f (parts os) s = os.foldl f s := by
  induction os using List.reverseRecOn with
  | nil => rfl
  | append_singleton os o ih =>
    obtain ⟨hFront, -, hLast⟩ := List.pairwise_append.mp h
    have hNodup : ((parts os).map SubPatch.id).Nodup := by
      rw [map_id_parts]
      exact nodup_eraseDups _
    have hBehind : ∀ sub ∈ parts os, place (parts os) o.id < place (parts os) sub.id →
        ∀ o' ∈ sub.operations, Exchange f o' o := by
      intro sub hSub hPlace o' ho'
      obtain ⟨first, -, rfl⟩ := mem_parts_iff.mp hSub
      obtain ⟨hMem, hId⟩ := List.mem_filter.mp ho'
      have hId : o'.id = first.id := of_decide_eq_true hId
      apply hLast o' hMem o (List.mem_singleton_self o)
      apply place_parts_append_lt (List.mem_map_of_mem hMem)
      rw [hId]
      exact hPlace
    have hEarlier : os.Pairwise fun o o' =>
        place (parts os) o'.id < place (parts os) o.id → Exchange f o o' := by
      apply hFront.imp_of_mem
      intro x y hx _ hExchange hPlace
      exact hExchange (place_parts_append_lt (List.mem_map_of_mem hx) hPlace)
    rw [← insert_parts, run_insert hNodup hBehind, ih hEarlier, List.foldl_append]
    rfl

end TableGateway.SubPatch
