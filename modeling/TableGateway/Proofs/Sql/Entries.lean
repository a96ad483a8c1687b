import Mathlib.Data.List.Forall2
import TableGateway.Proofs.Outcome
import TableGateway.Proofs.Sql.Parameters

/-!
# Values under their names

Each value that is added to the parameters of a statement gets the next place and a name of its own.
Values are only ever added at the end, so a place and a name keep their value however many values
come after it.
-/

namespace TableGateway

namespace Parameters

variable {ps : Parameters} {pushes : List (String × BoundValue)} {name : String} {v : BoundValue}

/-- A letter or an underscore, and behind it letters, digits and underscores. -/
def IsName (name : String) : Prop :=
  ∃ c cs, name.toList = c :: cs ∧ (c.isAlpha = true ∨ c = '_') ∧
    ∀ x ∈ cs, x.isAlphanum = true ∨ x = '_'

theorem baseName_eq_cons (hint : String) :
    ∃ c cs, baseName hint = c :: cs ∧ c.isDigit = false := by
  rw [baseName.eq_def]
  dsimp only
  split
  · exact ⟨'p', [], rfl, rfl⟩
  · next c cs hHint =>
    split
    · exact ⟨'p', _, rfl, rfl⟩
    · next hDigit => exact ⟨c, cs, hHint, Bool.eq_false_of_not_eq_true hDigit⟩

theorem isName_freshName (ps : Parameters) (hint : String) : IsName (ps.freshName hint) := by
  obtain ⟨c, cs, hBase, hDigit⟩ := baseName_eq_cons hint
  obtain ⟨tail, hTail⟩ : ∃ tail, (ps.freshName hint).toList = c :: tail := by
    rw [freshName, candidate, String.toList_ofList, hBase]
    split
    · exact ⟨cs, rfl⟩
    · exact ⟨_, rfl⟩
  have hChars {x : Char} (hx : x ∈ c :: tail) : x.isAlphanum = true ∨ x = '_' := by
    have hChar := isNameChar_of_mem_freshName (hTail ▸ hx)
    rwa [isNameChar, Bool.or_eq_true, decide_eq_true_eq] at hChar
  refine ⟨c, tail, hTail, ?_, fun x hx => hChars (List.mem_cons_of_mem c hx)⟩
  have hFirst := hChars List.mem_cons_self
  rwa [Char.isAlphanum, hDigit, Bool.or_false] at hFirst

theorem distinct_iff :
    ps.Distinct ↔ ps.names.Pairwise fun a b => Text.sameName a b = false := by
  simp only [Distinct, List.nodup_iff_pairwise_ne, List.pairwise_map, ne_eq, Text.lowered_eq_iff,
    Bool.not_eq_true]

theorem pushAll_append (ps : Parameters) (as bs : List (String × BoundValue)) :
    ps.pushAll (as ++ bs) = (ps.pushAll as).pushAll bs :=
  List.foldl_append

theorem entries_prefix_pushAll (ps : Parameters) (pushes : List (String × BoundValue)) :
    ps.entries <+: (ps.pushAll pushes).entries := by
  refine List.foldlRecOn (motive := fun qs : Parameters => ps.entries <+: qs.entries) pushes _
    (List.prefix_refl ps.entries) ?_
  exact fun qs hPrefix p _ => hPrefix.trans (List.prefix_append qs.entries _)

theorem get?_of_mem (h : ps.Distinct) (hMem : (name, v) ∈ ps.entries) : ps.get? name = some v := by
  have hNames : (ps.entries.map Prod.fst).Nodup := List.Nodup.of_map Text.lowered h
  have hFound : (ps.entries.find? fun entry => entry.1 = name) = some (name, v) := by
    refine find?_eq_some_of_unique hMem (decide_eq_true rfl) fun entry hEntry hSame => ?_
    exact List.inj_on_of_nodup_map hNames hEntry hMem (of_decide_eq_true hSame)
  rw [get?, hFound, Option.map_some]

/-- No value that is added later hides an earlier one. -/
theorem get?_pushAll_of_mem (h : name ∈ ps.names) (pushes : List (String × BoundValue)) :
    (ps.pushAll pushes).get? name = ps.get? name := by
  obtain ⟨later, hLater⟩ := entries_prefix_pushAll ps pushes
  obtain ⟨entry, hEntry, hName⟩ := List.mem_map.mp h
  have hFound : (ps.entries.find? fun entry => entry.1 = name).isSome = true :=
    List.find?_isSome.mpr ⟨entry, hEntry, by simpa using hName⟩
  rw [get?, get?, ← hLater, List.find?_append, Option.or_of_isSome hFound]

/-- For each value its place, from one up, and the name that it gets. -/
def returned (ps : Parameters) : List (String × BoundValue) → List (Nat × String)
  | [] => []
  | (hint, v) :: rest =>
    ((ps.push hint v).size, ps.freshName hint) :: (ps.push hint v).returned rest

theorem map_fst_returned (ps : Parameters) (pushes : List (String × BoundValue)) :
    (ps.returned pushes).map Prod.fst = List.range' (ps.size + 1) pushes.length := by
  induction pushes generalizing ps with
  | nil => rfl
  | cons p rest ih =>
    rw [returned, List.map_cons, ih, size_push, List.length_cons, List.range'_succ]

theorem names_pushAll (ps : Parameters) (pushes : List (String × BoundValue)) :
    (ps.pushAll pushes).names = ps.names ++ (ps.returned pushes).map Prod.snd := by
  induction pushes generalizing ps with
  | nil => exact (List.append_nil ps.names).symm
  | cons p rest ih =>
    change ((ps.push p.1 p.2).pushAll rest).names = _
    rw [ih, names_push, List.append_assoc]
    rfl

theorem isName_of_mem_returned {r : Nat × String} (h : r ∈ ps.returned pushes) : IsName r.2 := by
  induction pushes generalizing ps with
  | nil => cases h
  | cons p rest ih =>
    rcases List.mem_cons.mp h with rfl | hRest
    · exact isName_freshName ps p.1
    · exact ih hRest

theorem returned_mem_entries (ps : Parameters) (pushes : List (String × BoundValue)) :
    List.Forall₂ (fun r p => (r.2, p.2) ∈ (ps.pushAll pushes).entries) (ps.returned pushes)
      pushes := by
  induction pushes generalizing ps with
  | nil => exact .nil
  | cons p rest ih =>
    refine .cons ?_ (ih (ps.push p.1 p.2))
    exact (entries_prefix_pushAll (ps.push p.1 p.2) rest).mem (by simp [push])

/-- The places are counted from one, the values stand in their order, and each is found under its
name, which no other has. -/
structure Holds (ps : Parameters) (pushes : List (String × BoundValue))
    (returns : List (Nat × String)) : Prop where
  places : returns.map Prod.fst = List.range' 1 pushes.length
  names : ps.names = returns.map Prod.snd
  apart : ps.names.Pairwise fun a b => Text.sameName a b = false
  isName : ∀ name ∈ ps.names, IsName name
  values : ps.values = pushes.map Prod.snd
  found : List.Forall₂ (fun r p => ps.get? r.2 = some p.2) returns pushes

theorem holds_pushAll (pushes : List (String × BoundValue)) :
    (pushAll {} pushes).Holds pushes (returned {} pushes) where
  places := map_fst_returned {} pushes
  names := names_pushAll {} pushes
  apart := distinct_iff.mp (distinct_nil.pushAll pushes)
  isName := by
    intro name hName
    rw [names_pushAll] at hName
    obtain ⟨r, hr, rfl⟩ := List.mem_map.mp hName
    exact isName_of_mem_returned hr
  values := values_pushAll {} pushes
  found := (returned_mem_entries {} pushes).imp fun _ _ => get?_of_mem (distinct_nil.pushAll pushes)

/-- Values that are added later change nothing for those that are there. -/
theorem values_stay_under_their_names (pushes later : List (String × BoundValue)) :
    (pushAll {} pushes).Holds pushes (returned {} pushes) ∧
      (pushAll {} pushes).entries <+: (pushAll {} (pushes ++ later)).entries ∧
      ∀ name ∈ (pushAll {} pushes).names,
        (pushAll {} (pushes ++ later)).get? name = (pushAll {} pushes).get? name := by
  rw [pushAll_append]
  exact ⟨holds_pushAll pushes, entries_prefix_pushAll _ later,
    fun _ hName => get?_pushAll_of_mem hName later⟩

example : (returned {} [("Age", .null), ("age", .null), ("Age_2", .null), ("1 st", .null)]) =
    [(1, "Age"), (2, "age_2"), (3, "Age_2_2"), (4, "p1_st")] := by
  decide

end Parameters

end TableGateway
