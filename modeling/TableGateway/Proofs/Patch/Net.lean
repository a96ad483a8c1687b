import TableGateway.Proofs.Patch.Merge

/-!
# The net effect of a part

A part has column sets when each of its operations leaves a value in a column. One set stands for
all operations on its column, so that storing the sets at once changes a row as the operations do
one after the other.
-/

namespace TableGateway

/-- The values of a row by the names of its columns. -/
abbrev JsonRow := String → Json

/-- The value that the first set of this name has. -/
def SubPatch.valueIn? (sets : List (String × Json)) (name : String) : Option Json :=
  (sets.find? fun set => Text.sameName set.1 name).map Prod.snd

namespace JsonRow

/-- Stores a value under a name, in whatever case it is read. -/
def store (row : JsonRow) (set : String × Json) : JsonRow := fun name =>
  if Text.sameName set.1 name then set.2 else row name

/-- Stores all sets at once. -/
def storeAll (row : JsonRow) (sets : List (String × Json)) : JsonRow := fun name =>
  (SubPatch.valueIn? sets name).getD (row name)

end JsonRow

/-- The path leads to a column, and the operation leaves a value there. -/
def PatchOperation.SetsColumn (o : PatchOperation) : Prop :=
  (∃ id column, o.segments = [id, column] ∧ column ≠ "") ∧
    (o.kind = .remove ∨ (o.kind = .add ∨ o.kind = .replace) ∧ ∃ v, o.value = some v)

namespace SubPatch

variable {sets merged : List (String × Json)} {os : List PatchOperation} {o : PatchOperation}

theorem exists_columnOf_iff :
    (∃ column, columnOf o = .ok column) ↔
      ∃ id column, o.segments = [id, column] ∧ column ≠ "" := by
  rw [columnOf]
  split
  · next id column hSegments =>
    split
    · next hEmpty => simp [hSegments, hEmpty]
    · next hColumn => simp [hSegments, hColumn]
  · next hOther =>
    constructor
    · rintro ⟨column, h⟩
      cases h
    · rintro ⟨id, column, hSegments, -⟩
      exact absurd hSegments (hOther id column)

theorem exists_storedValue_iff :
    (∃ v, storedValue o = .ok v) ↔
      o.kind = .remove ∨ (o.kind = .add ∨ o.kind = .replace) ∧ ∃ v, o.value = some v := by
  rw [storedValue]
  cases o.kind <;> cases o.value <;> simp

theorem setsColumn_iff :
    o.SetsColumn ↔ columnOf o = .ok o.set.1 ∧ storedValue o = .ok o.set.2 := by
  rw [PatchOperation.SetsColumn, ← exists_columnOf_iff, ← exists_storedValue_iff]
  constructor
  · rintro ⟨⟨column, hColumn⟩, v, hValue⟩
    rw [set_eq hColumn hValue]
    exact ⟨hColumn, hValue⟩
  · rintro ⟨hColumn, hValue⟩
    exact ⟨⟨_, hColumn⟩, _, hValue⟩

theorem setsInto_eq_ok_iff :
    setsInto sets os = .ok merged ↔
      (∀ o ∈ os, o.SetsColumn) ∧
        merged = os.foldl (fun sets o => assign o.set.1 o.set.2 sets) sets := by
  induction os generalizing sets with
  | nil => simp [setsInto, eq_comm]
  | cons o os ih =>
    rw [setsInto, List.forall_mem_cons, List.foldl_cons]
    constructor
    · intro h
      obtain ⟨column, hColumn, h⟩ := Outcome.bind_eq_ok_iff.mp h
      obtain ⟨v, hValue, h⟩ := Outcome.bind_eq_ok_iff.mp h
      obtain ⟨hRest, hMerged⟩ := ih.mp h
      have hSet := set_eq hColumn hValue
      refine ⟨⟨setsColumn_iff.mpr ?_, hRest⟩, ?_⟩
      · rw [hSet]
        exact ⟨hColumn, hValue⟩
      · rw [hSet]
        exact hMerged
    · rintro ⟨⟨hFirst, hRest⟩, hMerged⟩
      obtain ⟨hColumn, hValue⟩ := setsColumn_iff.mp hFirst
      exact Outcome.bind_eq_ok_iff.mpr ⟨_, hColumn,
        Outcome.bind_eq_ok_iff.mpr ⟨_, hValue, ih.mpr ⟨hRest, hMerged⟩⟩⟩

theorem valueIn?_assign (column : String) (v : Json) (sets : List (String × Json))
    (name : String) :
    valueIn? (assign column v sets) name =
      if Text.sameName column name then some v else valueIn? sets name := by
  induction sets with
  | nil => by_cases hName : Text.sameName column name = true <;> simp [assign, valueIn?, hName]
  | cons set sets ih =>
    obtain ⟨c, v'⟩ := set
    rw [valueIn?] at ih ⊢
    rw [assign]
    split
    · next hSame =>
      have hName : Text.sameName c name = Text.sameName column name := by
        rw [Text.sameName, Text.sameName, Text.sameName_eq_true_iff.mp hSame]
      by_cases hFound : Text.sameName column name = true <;> simp [valueIn?, hName, hFound]
    · next hOther =>
      by_cases hFirst : Text.sameName c name = true
      · -- The first set has the name, so the column that is assigned has another one.
        have hColumn : Text.sameName column name = false := by
          rw [Bool.eq_false_iff]
          intro hName
          refine hOther (Text.sameName_eq_true_iff.mpr ?_)
          exact (Text.sameName_eq_true_iff.mp hFirst).trans
            (Text.sameName_eq_true_iff.mp hName).symm
        simp [valueIn?, hFirst, hColumn]
      · rw [List.find?_cons_of_neg (by simpa using hFirst), ih, valueIn?, valueIn?,
          List.find?_cons_of_neg (by simpa using hFirst)]

theorem storeAll_assign (row : JsonRow) (set : String × Json) (sets : List (String × Json)) :
    row.storeAll (assign set.1 set.2 sets) = (row.storeAll sets).store set := by
  funext name
  rw [JsonRow.storeAll, valueIn?_assign, JsonRow.store]
  split <;> rfl

/-- Where the first operation stands that is about the column of this name. -/
def firstMention (os : List PatchOperation) (name : String) : Nat :=
  os.findIdx fun o => Text.sameName o.set.1 name

theorem map_fst_assign (column : String) (v : Json) (sets : List (String × Json)) :
    (assign column v sets).map Prod.fst =
      sets.map Prod.fst ++ if names sets column then [] else [column] := by
  induction sets with
  | nil => rfl
  | cons set sets ih =>
    obtain ⟨c, v'⟩ := set
    rw [assign, names, List.any_cons]
    split
    · next hSame => simp [hSame]
    · next hOther =>
      rw [List.map_cons, List.map_cons, ih, Bool.eq_false_iff.mpr hOther, Bool.false_or,
        List.cons_append]
      rfl

/-- The sets name the columns that operations are about, in the order in which these first come
up, and leave what the operations leave. -/
structure Merges (os : List PatchOperation) (sets : List (String × Json)) : Prop where
  named : ∀ name, names sets name = os.any fun o => Text.sameName o.set.1 name
  ordered : (sets.map Prod.fst).Pairwise fun a b => firstMention os a < firstMention os b
  effect : ∀ row : JsonRow, row.storeAll sets = os.foldl (fun row o => row.store o.set) row

theorem merges_nil : Merges [] [] where
  named _ := rfl
  ordered := .nil
  effect _ := rfl

theorem firstMention_append_of_mentioned {name : String}
    (h : (os.any fun o => Text.sameName o.set.1 name) = true) :
    firstMention (os ++ [o]) name = firstMention os name := by
  rw [firstMention, List.findIdx_append, if_pos (List.findIdx_lt_length.mpr (by simpa using h))]
  rfl

theorem Merges.assign (h : Merges os sets) :
    Merges (os ++ [o]) (assign o.set.1 o.set.2 sets) where
  named name := by
    rw [names_assign, h.named, List.any_append, List.any_cons, List.any_nil, Bool.or_false]
  ordered := by
    have hMentioned : ∀ a ∈ sets.map Prod.fst,
        (os.any fun o => Text.sameName o.set.1 a) = true := by
      intro a ha
      obtain ⟨set, hSet, rfl⟩ := List.mem_map.mp ha
      rw [← h.named, names, List.any_eq_true]
      exact ⟨set, hSet, Text.sameName_self set.1⟩
    have hKept : (sets.map Prod.fst).Pairwise fun a b =>
        firstMention (os ++ [o]) a < firstMention (os ++ [o]) b := by
      refine h.ordered.imp_of_mem fun ha hb hBefore => ?_
      rw [firstMention_append_of_mentioned (hMentioned _ ha),
        firstMention_append_of_mentioned (hMentioned _ hb)]
      exact hBefore
    rw [map_fst_assign]
    split
    · simpa using hKept
    · next hNew =>
      have hLast : firstMention (os ++ [o]) o.set.1 = os.length := by
        rw [h.named, Bool.not_eq_true, List.any_eq_false] at hNew
        rw [firstMention, List.findIdx_append, if_neg]
        · simp
        · rw [List.findIdx_lt_length]
          rintro ⟨x, hx, hSame⟩
          exact hNew x hx hSame
      refine List.pairwise_append.mpr ⟨hKept, List.pairwise_singleton _ _, fun a ha b hb => ?_⟩
      rw [List.mem_singleton.mp hb, hLast, firstMention_append_of_mentioned (hMentioned a ha),
        firstMention, List.findIdx_lt_length]
      simpa using hMentioned a ha
  effect row := by
    rw [storeAll_assign, h.effect, List.foldl_append]
    rfl

theorem merges_foldl (seen : List PatchOperation) (h : Merges seen sets) :
    Merges (seen ++ os) (os.foldl (fun sets o => SubPatch.assign o.set.1 o.set.2 sets) sets) := by
  induction os generalizing seen sets with
  | nil => simpa using h
  | cons o os ih => simpa using ih (seen ++ [o]) h.assign

theorem Merges.distinct (h : Merges os sets) :
    sets.Pairwise fun a b => Text.sameName a.1 b.1 = false := by
  refine (List.pairwise_map.mp h.ordered).imp fun {a b} hBefore => ?_
  rw [Bool.eq_false_iff]
  intro hSame
  have hPlace : firstMention os a.1 = firstMention os b.1 := by
    rw [firstMention, firstMention]
    simp only [Text.sameName, Text.sameName_eq_true_iff.mp hSame]
  exact absurd hPlace (Nat.ne_of_lt hBefore)

/-- A part has sets exactly when each operation leaves a value in a column. They then have a column
each, in the order in which these are first mentioned, and storing them at once leaves what the
operations leave one after the other. -/
theorem sets_are_net_effect (s : SubPatch) :
    ((∃ sets, s.columnSets = .ok sets) ↔ ∀ o ∈ s.operations, o.SetsColumn) ∧
    ∀ sets, s.columnSets = .ok sets →
      (sets.Pairwise fun a b => Text.sameName a.1 b.1 = false) ∧
      (∀ name, (∃ set ∈ sets, Text.sameName set.1 name = true) ↔
        ∃ o ∈ s.operations, Text.sameName o.set.1 name = true) ∧
      (sets.Pairwise fun a b =>
        firstMention s.operations a.1 < firstMention s.operations b.1) ∧
      ∀ row : JsonRow, row.storeAll sets =
        s.operations.foldl (fun row o => row.store o.set) row := by
  simp only [columnSets, setsInto_eq_ok_iff, exists_and_left, exists_eq, and_true, true_and]
  rintro sets ⟨-, rfl⟩
  have hMerges : Merges s.operations
      (s.operations.foldl (fun sets o => SubPatch.assign o.set.1 o.set.2 sets) []) :=
    merges_foldl [] merges_nil
  have hOrder := hMerges.ordered
  rw [List.pairwise_map] at hOrder
  refine ⟨hMerges.distinct, fun name => ?_, hOrder, hMerges.effect⟩
  rw [← List.any_eq_true, ← List.any_eq_true, ← hMerges.named name]
  rfl

/-- The name is set twice, once in each spelling, with another column in between. -/
def sampleRenaming : SubPatch where
  id := "1"
  operations :=
    [{ kind := .add, path := "/1/Name", value := some (.text "Bill") },
      { kind := .remove, path := "/1/Phone" },
      { kind := .replace, path := "/1/name", value := some (.text "Will") }]

theorem sampleRenaming_net_effect :
    sampleRenaming.columnSets = .ok [("Name", .text "Will"), ("Phone", .null)] ∧
      ∀ row : JsonRow, row.storeAll [("Name", .text "Will"), ("Phone", .null)] =
        sampleRenaming.operations.foldl (fun row o => row.store o.set) row := by
  have hSets : sampleRenaming.columnSets = .ok [("Name", .text "Will"), ("Phone", .null)] := rfl
  exact ⟨hSets, ((sets_are_net_effect sampleRenaming).2 _ hSets).2.2.2⟩

end SubPatch

end TableGateway
