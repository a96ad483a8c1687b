import TableGateway.Patch.Operation

/-!
# Paths of patch operations

An escaped text is read back as it was, whatever stands behind it. So a path that an id is put in
front of begins with this id, but the first segment does not end there: it goes on with all that
the path has in front of its own first slash.
-/

namespace TableGateway

namespace Text

variable {p : Char → Bool}

/-- A piece without separators goes into the first piece of what follows it. -/
theorem splitChars_append {piece : List Char} (h : ∀ c ∈ piece, p c = false) (cs : List Char) :
    splitChars p (piece ++ cs) =
      (piece ++ cs.takeWhile fun c => !p c) :: (splitChars p cs).tail := by
  induction piece with
  | nil =>
    induction cs with
    | nil => rfl
    | cons c cs ih =>
      rw [List.nil_append, List.nil_append] at ih ⊢
      rw [splitChars]
      split
      · next hSeparator => simp [hSeparator]
      · next hOther => rw [ih, List.takeWhile_cons_of_pos (by simp [hOther]), List.tail_cons]
  | cons c piece ih =>
    rw [List.forall_mem_cons] at h
    rw [List.cons_append, splitChars, if_neg (by simp [h.1]), ih h.2]
    rfl

end Text

namespace PatchOperation

variable {id : String} {o : PatchOperation}

theorem unescape_cons {c : Char} (h : c ≠ '~') (cs : List Char) :
    unescape (c :: cs) = c :: unescape cs := by
  rw [unescape.eq_def]
  split <;> simp_all

theorem unescape_escapeChar_append (c : Char) (cs : List Char) :
    unescape (escapeChar c ++ cs) = c :: unescape cs := by
  rw [escapeChar]
  split
  · next hTilde => rw [hTilde]; rfl
  · next hTilde =>
    split
    · next hSlash => rw [hSlash]; rfl
    · exact unescape_cons hTilde cs

theorem unescape_escape_append (s : String) (cs : List Char) :
    unescape (escape s ++ cs) = s.toList ++ unescape cs := by
  rw [escape]
  induction s.toList with
  | nil => rfl
  | cons c s ih => rw [List.flatMap_cons, List.append_assoc, unescape_escapeChar_append, ih]; rfl

theorem unescape_eq_nil_iff {cs : List Char} : unescape cs = [] ↔ cs = [] := by
  rw [unescape.eq_def]
  split <;> simp

theorem ne_slash_of_mem_escape {s : String} {c : Char} (h : c ∈ escape s) : c ≠ '/' := by
  obtain ⟨x, -, hc⟩ := List.mem_flatMap.mp h
  rw [escapeChar] at hc
  rintro rfl
  split at hc
  · exact absurd hc (by decide)
  · split at hc
    · exact absurd hc (by decide)
    · next hSlash => exact hSlash (List.mem_singleton.mp hc).symm

/-- What a path has in front of its first slash. -/
def front (o : PatchOperation) : List Char := o.path.toList.takeWhile (· ≠ '/')

theorem segments_inResource (id : String) (o : PatchOperation) :
    (o.inResource id).segments =
      (id ++ String.ofList (unescape o.front)) ::
        (Text.splitChars (· = '/') o.path.toList).tail.map fun segment =>
          String.ofList (unescape segment) := by
  have hEscaped : ∀ c ∈ escape id, decide (c = '/') = false := fun c hc => by
    simpa using ne_slash_of_mem_escape hc
  have hFront : o.path.toList.takeWhile (fun c => !decide (c = '/')) = o.front := by
    simp [front]
  rw [segments, inResource, String.toList_ofList]
  change (Text.splitChars (· = '/') (escape id ++ o.path.toList)).map _ = _
  rw [Text.splitChars_append hEscaped, hFront, List.map_cons, unescape_escape_append,
    String.ofList_append, String.ofList_toList]

theorem id_inResource (id : String) (o : PatchOperation) :
    (o.inResource id).id = id ++ String.ofList (unescape o.front) := by
  rw [PatchOperation.id, segments_inResource]
  rfl

/-- The path is empty or begins with a slash. -/
def isAnchored (o : PatchOperation) : Bool := o.path.toList.head?.all (· = '/')

theorem front_eq_nil_iff : o.front = [] ↔ o.isAnchored = true := by
  rw [front, isAnchored]
  cases o.path.toList with
  | nil => simp
  | cons c cs => simp [List.takeWhile_cons]

theorem id_inResource_eq_iff : (o.inResource id).id = id ↔ o.isAnchored = true := by
  rw [id_inResource, ← front_eq_nil_iff, ← unescape_eq_nil_iff]
  constructor
  · intro h
    have hLists := congrArg String.toList h
    simpa using hLists
  · intro h
    rw [h]
    simp

end PatchOperation

end TableGateway
