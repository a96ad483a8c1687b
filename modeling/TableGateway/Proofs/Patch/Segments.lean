import TableGateway.Proofs.Patch.Plain

/-!
# Paths and their segments

Segments that are escaped and joined by slashes are read back from their path, and an id in front of
a path that begins with a slash is one more segment. A segment is escaped and decoded in one pass
over its characters. Two replacements come to the same, as long as a tilde is the first thing to be
escaped and the last one to be decoded.
-/

namespace TableGateway

namespace Text

variable {p : Char → Bool} {a b c x : Char} {cs : List Char}

/-- Pieces without separators are found again between the separators. -/
theorem splitChars_join {sep : Char} {pieces : List (List Char)} (hSep : p sep = true)
    (hNonempty : pieces ≠ []) (h : ∀ piece ∈ pieces, ∀ c ∈ piece, p c = false) :
    splitChars p (join [sep] pieces) = pieces := by
  induction pieces with
  | nil => exact absurd rfl hNonempty
  | cons piece pieces ih =>
    rw [List.forall_mem_cons] at h
    have hFirst := splitChars_of_plain h.1
    cases pieces with
    | nil => exact hFirst
    | cons next pieces =>
      rw [join, List.append_assoc, List.singleton_append, splitChars_separated hSep, hFirst,
        ih (List.cons_ne_nil _ _) h.2]
      rfl

/-- The text with `piece` for every `a`. -/
def replaceChar (a : Char) (piece cs : List Char) : List Char :=
  cs.flatMap fun c => if c = a then piece else [c]

/-- The text with `x` for every `a` that `b` follows, from left to right. -/
def replacePair (a b x : Char) : List Char → List Char
  | c :: d :: rest =>
    if c = a ∧ d = b then x :: replacePair a b x rest else c :: replacePair a b x (d :: rest)
  | cs => cs

theorem replacePair_pair (a b x : Char) (cs : List Char) :
    replacePair a b x (a :: b :: cs) = x :: replacePair a b x cs := by
  rw [replacePair, if_pos ⟨rfl, rfl⟩]

theorem replacePair_cons (h : ¬ (c = a ∧ cs.head? = some b)) :
    replacePair a b x (c :: cs) = c :: replacePair a b x cs := by
  cases cs with
  | nil => rfl
  | cons d rest =>
    rw [replacePair, if_neg]
    rintro ⟨hFirst, rfl⟩
    exact h ⟨hFirst, rfl⟩

theorem head?_replacePair (h : cs.head? ≠ some c) (hNew : x ≠ c) :
    (replacePair a b x cs).head? ≠ some c := by
  cases cs with
  | nil => exact h
  | cons d rest =>
    by_cases hPair : d = a ∧ rest.head? = some b
    · obtain ⟨rest, rfl⟩ := List.head?_eq_some_iff.mp hPair.2
      rw [hPair.1, replacePair_pair]
      simpa using hNew
    · rw [replacePair_cons hPair]
      simpa using h

end Text

namespace PatchOperation

variable {id : String} {o : PatchOperation}

theorem escape_eq_replaced (s : String) :
    escape s = Text.replaceChar '/' ['~', '1'] (Text.replaceChar '~' ['~', '0'] s.toList) := by
  rw [Text.replaceChar, Text.replaceChar, List.flatMap_assoc, escape]
  congr
  funext c
  rw [escapeChar]
  split
  · rfl
  · rw [List.flatMap_singleton]

/-- What the first replacement writes is no part of what the second one looks for. -/
theorem unescape_eq_replaced (cs : List Char) :
    unescape cs = Text.replacePair '~' '0' '~' (Text.replacePair '~' '1' '/' cs) := by
  fun_induction unescape cs with
  | case1 => rfl
  | case2 rest ih => rw [ih, Text.replacePair_pair, Text.replacePair_cons (by simp)]
  | case3 rest ih =>
    have hKept : Text.replacePair '~' '1' '/' ('~' :: '0' :: rest) =
        '~' :: '0' :: Text.replacePair '~' '1' '/' rest := by
      rw [Text.replacePair_cons (by simp), Text.replacePair_cons (by simp)]
    rw [ih, hKept, Text.replacePair_pair]
  | case4 c rest hSlash hTilde ih =>
    have hNotOne : ¬ (c = '~' ∧ rest.head? = some '1') := by
      rintro ⟨rfl, hHead⟩
      obtain ⟨rest, rfl⟩ := List.head?_eq_some_iff.mp hHead
      exact hSlash rest rfl rfl
    have hNotZero : ¬ (c = '~' ∧ (Text.replacePair '~' '1' '/' rest).head? = some '0') := by
      rintro ⟨rfl, hHead⟩
      refine Text.head?_replacePair (fun hRest => ?_) (by decide) hHead
      obtain ⟨rest, rfl⟩ := List.head?_eq_some_iff.mp hRest
      exact hTilde rest rfl rfl
    rw [ih, Text.replacePair_cons hNotOne, Text.replacePair_cons hNotZero]

example : Text.replacePair '~' '1' '/' (Text.replacePair '~' '0' '~' "~01".toList) ≠
    unescape "~01".toList := by decide

/-- The path of these segments. -/
def pathOf (segments : List String) : String :=
  String.ofList ('/' :: Text.join ['/'] (segments.map escape))

theorem ofList_unescape_escape (s : String) : String.ofList (unescape (escape s)) = s := by
  have hRead := unescape_escape_append s []
  rw [List.append_nil] at hRead
  rw [hRead, unescape, List.append_nil, String.ofList_toList]

theorem segmentsOf_pathOf {segments : List String} (h : segments ≠ []) :
    segmentsOf (pathOf segments).toList = segments := by
  have hPlain : ∀ piece ∈ segments.map escape, ∀ c ∈ piece, decide (c = '/') = false := by
    rw [List.forall_mem_map]
    exact fun s _ c hc => decide_eq_false (ne_slash_of_mem_escape hc)
  have hPieces : Text.splitChars (· = '/') (Text.join ['/'] (segments.map escape)) =
      segments.map escape :=
    Text.splitChars_join (by decide) (mt List.map_eq_nil_iff.mp h) hPlain
  rw [pathOf, String.toList_ofList, segmentsOf, hPieces, List.map_map]
  exact (List.map_congr_left fun s _ => ofList_unescape_escape s).trans (List.map_id segments)

theorem segments_inResource_of_slash (h : o.path.toList.head? = some '/') :
    (o.inResource id).segments = id :: o.segments := by
  obtain ⟨rest, hPath⟩ := List.head?_eq_some_iff.mp h
  have hFront : o.front = [] := by
    rw [front_eq_nil_iff, isAnchored, h]
    rfl
  rw [segments_inResource, hFront, unescape, String.ofList_nil, String.append_empty, segments,
    hPath]
  rfl

/-- Segments are read back from their path as they were, and the segments of an operation on a
resource are its id and those that the operation had. A segment is escaped by two replacements, and
by the opposite ones in the opposite order it is decoded. -/
theorem segments_of_paths :
    (∀ (segments : List String) (o : PatchOperation), segments ≠ [] → o.path = pathOf segments →
      o.segments = segments) ∧
    (∀ (id : String) (o : PatchOperation), o.path.toList.head? = some '/' →
      (o.inResource id).segments = id :: o.segments) ∧
    (∀ s : String,
      escape s = Text.replaceChar '/' ['~', '1'] (Text.replaceChar '~' ['~', '0'] s.toList)) ∧
    ∀ cs, unescape cs = Text.replacePair '~' '0' '~' (Text.replacePair '~' '1' '/' cs) := by
  refine ⟨fun segments o hNonempty hPath => ?_, fun id o hSlash => ?_, escape_eq_replaced,
    unescape_eq_replaced⟩
  · rw [PatchOperation.segments, hPath]
    exact segmentsOf_pathOf hNonempty
  · exact segments_inResource_of_slash hSlash

/-- Slashes, tildes and what looks like escapes, with an empty segment among them. -/
def escapedOperation : PatchOperation := { kind := .remove, path := "/a~1b/~01//~0~00~1" }

theorem escapedOperation_segments :
    escapedOperation.segments = ["a/b", "~1", "", "~~0/"] ∧
      (escapedOperation.inResource "~1/").segments = ["~1/", "a/b", "~1", "", "~~0/"] := by
  have hSegments : escapedOperation.segments = ["a/b", "~1", "", "~~0/"] :=
    segments_of_paths.1 _ escapedOperation (List.cons_ne_nil _ _) rfl
  refine ⟨hSegments, ?_⟩
  rw [segments_of_paths.2.1 "~1/" escapedOperation rfl, hSegments]

end PatchOperation

end TableGateway
