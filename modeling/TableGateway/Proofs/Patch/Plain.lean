import Mathlib.Data.List.TakeWhile
import TableGateway.Proofs.Patch.Path

/-!
# Ids that stand in paths as they are

An id that is put into a path without being escaped is read back only when nothing in it is taken
for a slash or for an escape.
-/

namespace TableGateway

namespace Text

variable {p : Char → Bool} {cs : List Char}

theorem head?_splitChars (p : Char → Bool) (cs : List Char) :
    (splitChars p cs).head? = some (cs.takeWhile fun c => !p c) := by
  have hNone : ∀ c ∈ ([] : List Char), p c = false := nofun
  have hSplit := splitChars_append hNone cs
  rw [List.nil_append, List.nil_append] at hSplit
  rw [hSplit]
  rfl

theorem splitChars_of_plain (h : ∀ c ∈ cs, p c = false) : splitChars p cs = [cs] := by
  have hSplit := splitChars_append h []
  rw [List.append_nil] at hSplit
  rw [hSplit, List.takeWhile_nil, List.append_nil]
  rfl

theorem plain_of_splitChars {x : List Char} (h : splitChars p cs = [x]) :
    ∀ c ∈ cs, p c = false := by
  induction cs generalizing x with
  | nil => exact nofun
  | cons c cs ih =>
    rw [splitChars] at h
    split at h
    · exact absurd (List.cons.inj h).2 (splitChars_ne_nil p cs)
    · next hOther =>
      split at h
      · next hNone => exact absurd hNone (splitChars_ne_nil p cs)
      · next piece pieces hPieces =>
        rw [(List.cons.inj h).2] at hPieces
        exact List.forall_mem_cons.mpr ⟨by simpa using hOther, ih hPieces⟩

theorem splitChars_separated {sep : Char} (h : p sep = true) (a b : List Char) :
    splitChars p (a ++ sep :: b) = splitChars p a ++ splitChars p b := by
  induction a with
  | nil =>
    rw [List.nil_append, splitChars.eq_def p (sep :: b)]
    simp only
    rw [if_pos h]
    rfl
  | cons c a ih =>
    rw [List.cons_append, splitChars, splitChars, ih]
    split
    · rfl
    · obtain ⟨piece, pieces, hPieces⟩ := List.exists_cons_of_ne_nil (splitChars_ne_nil p a)
      rw [hPieces]
      rfl

end Text

namespace PatchOperation

variable {o : PatchOperation} {id key : String}

/-- Nothing in the text is taken for a slash or for an escape. -/
structure IsPlain (s : String) : Prop where
  noSlash : '/' ∉ s.toList
  noEscape : unescape s.toList = s.toList

theorem length_unescape_le (cs : List Char) : (unescape cs).length ≤ cs.length := by
  fun_induction unescape cs with
  | case1 => exact Nat.le_refl 0
  | case2 rest ih => simp only [List.length_cons]; omega
  | case3 rest ih => simp only [List.length_cons]; omega
  | case4 c rest _ _ ih => simp only [List.length_cons]; omega

theorem noSlash_iff {s : String} : '/' ∉ s.toList ↔ ∀ c ∈ s.toList, decide (c = '/') = false := by
  constructor
  · intro h c hc
    exact decide_eq_false fun hSlash => h (hSlash ▸ hc)
  · intro h hSlash
    have hOther := h '/' hSlash
    cases hOther

/-- The segments of a text that stands in a path as it is. -/
def rawSegments (s : String) : List String :=
  (Text.splitChars (· = '/') s.toList).map fun segment => String.ofList (unescape segment)

theorem rawSegments_ne_nil (s : String) : rawSegments s ≠ [] := by
  rw [rawSegments, ne_eq, List.map_eq_nil_iff]
  exact Text.splitChars_ne_nil _ _

theorem rawSegments_eq_singleton {s : String} : rawSegments s = [s] ↔ IsPlain s := by
  constructor
  · intro h
    obtain ⟨x, hSplit, hText⟩ := List.map_eq_singleton_iff.mp h
    have hPlain := Text.plain_of_splitChars hSplit
    rw [Text.splitChars_of_plain hPlain] at hSplit
    obtain rfl := (List.cons.inj hSplit).1
    refine ⟨noSlash_iff.mpr hPlain, ?_⟩
    rw [← String.toList_ofList (l := unescape s.toList), hText]
  · intro h
    rw [rawSegments, Text.splitChars_of_plain (noSlash_iff.mp h.noSlash), List.map_singleton,
      h.noEscape, String.ofList_toList]

/-- The first segment is the whole text only if there is no other one. -/
theorem headD_rawSegments {s : String} : (rawSegments s).headD "" = s ↔ IsPlain s := by
  constructor
  · intro h
    have hHead := Text.head?_splitChars (· = '/') s.toList
    obtain ⟨rest, hSplit⟩ := List.head?_eq_some_iff.mp hHead
    rw [rawSegments, hSplit, List.map_cons, List.headD_cons] at h
    have hText : unescape (s.toList.takeWhile fun c => !decide (c = '/')) = s.toList := by
      rw [← String.toList_ofList (l := unescape _), h]
    have hLength := length_unescape_le (s.toList.takeWhile fun c => !decide (c = '/'))
    rw [hText] at hLength
    have hWhole : (s.toList.takeWhile fun c => !decide (c = '/')) = s.toList :=
      (List.takeWhile_prefix _).eq_of_length_le hLength
    rw [hWhole] at hText
    refine ⟨noSlash_iff.mpr fun c hc => ?_, hText⟩
    simpa using List.takeWhile_eq_self_iff.mp hWhole c hc
  · intro h
    rw [rawSegments_eq_singleton.mpr h]
    rfl

theorem rawSegments_append (a b : String) :
    (rawSegments a ++ rawSegments b = [a, b]) ↔ IsPlain a ∧ IsPlain b := by
  constructor
  · intro h
    obtain ⟨x, xs, hx⟩ := List.exists_cons_of_ne_nil (rawSegments_ne_nil a)
    obtain ⟨y, ys, hy⟩ := List.exists_cons_of_ne_nil (rawSegments_ne_nil b)
    have hLength := congrArg List.length h
    rw [hx, hy] at hLength h
    simp only [List.length_append, List.length_cons, List.length_nil] at hLength
    obtain rfl := List.length_eq_zero_iff.mp (by omega : xs.length = 0)
    obtain rfl := List.length_eq_zero_iff.mp (by omega : ys.length = 0)
    obtain ⟨rfl, hRest⟩ := List.cons.inj h
    obtain ⟨rfl, -⟩ := List.cons.inj hRest
    exact ⟨rawSegments_eq_singleton.mp hx, rawSegments_eq_singleton.mp hy⟩
  · rintro ⟨ha, hb⟩
    rw [rawSegments_eq_singleton.mpr ha, rawSegments_eq_singleton.mpr hb]
    rfl

theorem segments_of_id (h : o.path = s!"/{id}") : o.segments = rawSegments id := by
  have hPath : o.path.toList = '/' :: id.toList := by
    rw [h]
    exact String.toList_append
  rw [segments, hPath]
  rfl

theorem id_eq_iff (h : o.path = s!"/{id}") : o.id = id ↔ IsPlain id := by
  rw [PatchOperation.id, segments_of_id h]
  exact headD_rawSegments

theorem segments_of_id_key (h : o.path = s!"/{id}/{key}") :
    o.segments = rawSegments id ++ rawSegments key := by
  have hPath : o.path.toList = '/' :: (id.toList ++ '/' :: key.toList) := by
    rw [h, String.toList_append, String.toList_append, String.toList_append, List.append_assoc,
      List.append_assoc]
    rfl
  rw [segments, hPath, segmentsOf, Text.splitChars_separated (by decide), List.map_append]
  rfl

end PatchOperation

end TableGateway
