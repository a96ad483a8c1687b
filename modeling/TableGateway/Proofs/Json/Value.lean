import TableGateway.Proofs.Json.Document
import TableGateway.Proofs.Number.Range

/-!
# Values that are read

Every number in a value that was read from a text is in range, and the value is nested no deeper
than its document. So it can be written and read again.
-/

namespace TableGateway.Json

/-- The nesting of arrays and objects in the written form of a value. -/
def depth (j : Json) : Nat := j.toDocument.depth

/-- All numbers in it are in range. -/
def Denotes (j : Json) : Prop := j.toDocument.Denotes

variable {j : Json} {items js : List Json} {members : List (String × Json)} {n : Nat}

theorem itemsToDocuments_eq (items : List Json) :
    itemsToDocuments items = items.map toDocument := by
  induction items with
  | nil => rfl
  | cons x xs ih => rw [itemsToDocuments, ih, List.map_cons]

theorem membersToDocuments_eq (members : List (String × Json)) :
    membersToDocuments members = members.map fun m => (some m.1, m.2.toDocument) := by
  induction members with
  | nil => rfl
  | cons m ms ih => rw [membersToDocuments, ih, List.map_cons]

theorem denotes_array : (Json.array items).Denotes ↔ ∀ x ∈ items, x.Denotes := by
  rw [Denotes, toDocument, itemsToDocuments_eq]
  exact Document.denotesItems_iff.trans List.forall_mem_map

theorem denotes_object : (Json.object members).Denotes ↔ ∀ m ∈ members, m.2.Denotes := by
  rw [Denotes, toDocument, membersToDocuments_eq]
  refine Document.denotesMembers_iff.trans (List.forall_mem_map.trans ?_)
  simp [Denotes]

namespace Document

theorem depthOfItems_le_iff {items : List Document} :
    depthOfItems items ≤ n ↔ ∀ d ∈ items, d.depth ≤ n := by
  induction items with
  | nil => simp [depthOfItems]
  | cons d ds ih => rw [depthOfItems, Nat.max_le, ih, List.forall_mem_cons]

theorem depthOfMembers_le_iff {members : List (Option String × Document)} :
    depthOfMembers members ≤ n ↔ ∀ m ∈ members, m.2.depth ≤ n := by
  induction members with
  | nil => simp [depthOfMembers]
  | cons m ms ih => rw [depthOfMembers, Nat.max_le, ih, List.forall_mem_cons]

end Document

theorem depth_array_le : (Json.array items).depth ≤ n + 1 ↔ ∀ x ∈ items, x.depth ≤ n := by
  rw [depth, toDocument, itemsToDocuments_eq, Document.depth, Nat.add_le_add_iff_right]
  exact Document.depthOfItems_le_iff.trans List.forall_mem_map

theorem depth_object_le : (Json.object members).depth ≤ n + 1 ↔ ∀ m ∈ members, m.2.depth ≤ n := by
  rw [depth, toDocument, membersToDocuments_eq, Document.depth, Nat.add_le_add_iff_right]
  exact Document.depthOfMembers_le_iff.trans List.forall_mem_map

theorem mem_of_mem_insertMember {α : Type} {key : String} {value : α} {ms : List (String × α)}
    {m : String × α} (h : m ∈ insertMember key value ms) : m = (key, value) ∨ m ∈ ms := by
  induction ms with
  | nil => exact .inl (List.mem_singleton.mp h)
  | cons first ms ih =>
    rw [insertMember] at h
    split at h
    · exact List.mem_cons.mp h
    · split at h
      · rcases List.mem_cons.mp h with hNew | hOld
        · exact .inl hNew
        · exact .inr (List.mem_cons_of_mem _ hOld)
      · rcases List.mem_cons.mp h with hFirst | hRest
        · exact .inr (hFirst ▸ List.mem_cons_self)
        · exact (ih hRest).imp_right (List.mem_cons_of_mem _)

theorem mem_of_mem_sortMembers {α : Type} {ms : List (String × α)} {m : String × α}
    (h : m ∈ sortMembers ms) : m ∈ ms := by
  rw [sortMembers] at h
  suffices hAll : ∀ sorted : List (String × α),
      m ∈ ms.foldl (fun sorted m => insertMember m.1 m.2 sorted) sorted → m ∈ sorted ∨ m ∈ ms by
    exact (hAll [] h).resolve_left List.not_mem_nil
  clear h
  induction ms with
  | nil => exact fun sorted => .inl
  | cons first ms ih =>
    intro sorted hFold
    rcases ih _ hFold with hInserted | hRest
    · rcases mem_of_mem_insertMember hInserted with rfl | hOld
      · exact .inr List.mem_cons_self
      · exact .inl hOld
    · exact .inr (List.mem_cons_of_mem _ hRest)

theorem find?_insertMember_self {α : Type} (key : String) (value : α) (ms : List (String × α)) :
    ((insertMember key value ms).find? fun m => m.1 = key) = some (key, value) := by
  induction ms with
  | nil => simp [insertMember]
  | cons first ms ih =>
    rw [insertMember]
    split
    · simp
    · split
      · simp
      · next hOther => rw [List.find?_cons_of_neg (by simpa using Ne.symm hOther), ih]

theorem find?_insertMember_of_ne {α : Type} {key name : String} (h : key ≠ name) (value : α)
    (ms : List (String × α)) :
    ((insertMember key value ms).find? fun m => m.1 = name) = ms.find? fun m => m.1 = name := by
  induction ms with
  | nil => simp [insertMember, h]
  | cons first ms ih =>
    rw [insertMember]
    split
    · rw [List.find?_cons_of_neg (by simpa using h)]
    · split
      · next hSame =>
        rw [List.find?_cons_of_neg (by simpa using h),
          List.find?_cons_of_neg (by simpa [← hSame] using h)]
      · rw [List.find?_cons, List.find?_cons, ih]

theorem mem_of_member? {name : String} (h : (Json.object members).member? name = some j) :
    (name, j) ∈ members := by
  obtain ⟨⟨key, value⟩, hFound, rfl⟩ := Option.map_eq_some_iff.mp h
  obtain rfl : key = name := by simpa using List.find?_some hFound
  exact List.mem_of_find?_eq_some hFound

/-- Of two members with one key the later is found. -/
theorem member?_ofMembers (ms : List (String × Json)) (name : String) :
    (ofMembers ms).member? name = (ms.reverse.find? fun m => m.1 = name).map Prod.snd := by
  rw [ofMembers, member?, sortMembers]
  congr 1
  suffices hAll : ∀ sorted : List (String × Json),
      ((ms.foldl (fun sorted m => insertMember m.1 m.2 sorted) sorted).find? fun m => m.1 = name) =
        (ms.reverse.find? fun m => m.1 = name).or (sorted.find? fun m => m.1 = name) by
    rw [hAll, List.find?_nil, Option.or_none]
  induction ms with
  | nil => exact fun sorted => rfl
  | cons first ms ih =>
    intro sorted
    rw [List.foldl_cons, ih, List.reverse_cons, List.find?_append, Option.or_assoc]
    congr 1
    by_cases hName : first.1 = name
    · rw [← hName, find?_insertMember_self]
      simp
    · rw [find?_insertMember_of_ne hName]
      simp [hName]

namespace Document

theorem valuesOfItems?_cons_eq_some {d : Document} {ds : List Document} {js : List Json}
    (h : valuesOfItems? (d :: ds) = some js) :
    ∃ x xs, d.value? = some x ∧ valuesOfItems? ds = some xs ∧ js = x :: xs := by
  rw [valuesOfItems?] at h
  split at h
  · next x xs hValue hRest => exact ⟨x, xs, hValue, hRest, (Option.some.inj h).symm⟩
  · cases h

theorem valuesOfMembers?_cons_eq_some {key : Option String} {d : Document}
    {ds : List (Option String × Document)} {ms : List (String × Json)}
    (h : valuesOfMembers? ((key, d) :: ds) = some ms) :
    ∃ name x xs, d.value? = some x ∧ valuesOfMembers? ds = some xs ∧ ms = (name, x) :: xs := by
  rw [valuesOfMembers?.eq_def] at h
  simp only at h
  split at h
  · next name x xs hValue hRest => exact ⟨name, x, xs, hValue, hRest, (Option.some.inj h).symm⟩
  · cases h

mutual

theorem depth_value? (d : Document) {j : Json} (h : d.value? = some j) : j.depth ≤ d.depth := by
  match d with
  | .null | .bool _ | .number _ | .text _ =>
    cases h
    exact Nat.le_refl 0
  | .void => cases h
  | .array items =>
    obtain ⟨js, hItems, rfl⟩ := Option.map_eq_some_iff.mp h
    exact depth_array_le.mpr (depth_valuesOfItems? items hItems)
  | .object members =>
    obtain ⟨ms, hMembers, rfl⟩ := Option.map_eq_some_iff.mp h
    apply depth_object_le.mpr
    intro m hm
    exact depth_valuesOfMembers? members hMembers m (mem_of_mem_sortMembers hm)

theorem depth_valuesOfItems? (items : List Document) {js : List Json}
    (h : valuesOfItems? items = some js) : ∀ j ∈ js, j.depth ≤ depthOfItems items := by
  match items with
  | [] =>
    cases h
    exact nofun
  | d :: ds =>
    obtain ⟨x, xs, hValue, hRest, rfl⟩ := valuesOfItems?_cons_eq_some h
    rw [List.forall_mem_cons]
    constructor
    · exact Nat.le_trans (depth_value? d hValue) (Nat.le_max_left _ _)
    · intro j hj
      exact Nat.le_trans (depth_valuesOfItems? ds hRest j hj) (Nat.le_max_right _ _)

theorem depth_valuesOfMembers? (members : List (Option String × Document))
    {ms : List (String × Json)} (h : valuesOfMembers? members = some ms) :
    ∀ m ∈ ms, m.2.depth ≤ depthOfMembers members := by
  match members with
  | [] =>
    cases h
    exact nofun
  | (key, d) :: ds =>
    obtain ⟨name, x, xs, hValue, hRest, rfl⟩ := valuesOfMembers?_cons_eq_some h
    rw [List.forall_mem_cons]
    constructor
    · exact Nat.le_trans (depth_value? d hValue) (Nat.le_max_left _ _)
    · intro m hm
      exact Nat.le_trans (depth_valuesOfMembers? ds hRest m hm) (Nat.le_max_right _ _)

end

end Document

def Token.InRange : Token → Prop
  | .number (some n) => n.InRange
  | _ => True

theorem inRange_scanToken {cs rest : List Char} {t : Token} (h : scanToken cs = some (t, rest)) :
    t.InRange := by
  rw [scanToken.eq_def] at h
  split at h
  case h_10 =>
    obtain ⟨⟨parts, after⟩, -, hToken⟩ := Option.map_eq_some_iff.mp h
    rw [← (Prod.mk.inj hToken).1]
    trivial
  case h_11 =>
    obtain ⟨⟨text, after⟩, -, hToken⟩ := Option.map_eq_some_iff.mp h
    rw [← (Prod.mk.inj hToken).1]
    cases hNumber : text.number? with
    | none => trivial
    | some n => exact NumberText.inRange_number? hNumber
  all_goals
    rw [← (Prod.mk.inj (Option.some.inj h)).1]
    trivial

def InRange (ts : List Token) : Prop := ∀ t ∈ ts, t.InRange

theorem inRange_tokens (cs : List Char) : InRange (tokens cs) := by
  induction hLength : cs.length using Nat.strongRecOn generalizing cs with
  | ind n ih =>
    cases cs with
    | nil =>
      rw [tokens]
      exact List.forall_mem_nil Token.InRange
    | cons c cs =>
      rw [tokens_cons]
      split
      · exact ih cs.length (by rw [← hLength]; exact Nat.lt_succ_self _) cs rfl
      · cases hScan : scanToken (c :: cs) with
        | none =>
          intro t ht
          rw [List.mem_singleton.mp ht]
          trivial
        | some found =>
          obtain ⟨t, rest⟩ := found
          have hShorter := length_scanToken hScan
          rw [hLength] at hShorter
          exact List.forall_mem_cons.mpr ⟨inRange_scanToken hScan, ih _ hShorter rest rfl⟩

namespace Document

def ReadsValue (ts : List Token) : Prop :=
  InRange ts → ∀ d rest, Yields ts d rest → InRange rest ∧ ∀ j, d.value? = some j → j.Denotes

def ReadsItems (ts : List Token) : Prop :=
  InRange ts → ∀ items rest, YieldsItems ts items rest →
    InRange rest ∧ ∀ js, valuesOfItems? items = some js → ∀ j ∈ js, j.Denotes

def ReadsMembers (ts : List Token) : Prop :=
  InRange ts → ∀ members rest, YieldsMembers ts members rest →
    InRange rest ∧ ∀ ms, valuesOfMembers? members = some ms → ∀ m ∈ ms, m.2.Denotes

/-- The tokens are read as documents, items and members that denote values which can be written. -/
def ReadsAll (ts : List Token) : Prop := ReadsValue ts ∧ ReadsItems ts ∧ ReadsMembers ts

theorem denotes_of_token {t : Token} {d : Document} {j : Json} (ht : t.InRange)
    (hToken : ofToken? t = some d) (h : d.value? = some j) : j.Denotes := by
  cases t with
  | null | bool b =>
    cases hToken
    cases h
    trivial
  | number x =>
    cases hToken
    cases x with
    | none => cases h
    | some n =>
      cases h
      exact ht
  | text x =>
    cases hToken
    cases x with
    | none => cases h
    | some s =>
      cases h
      trivial
  | _ => cases hToken

theorem readsValue {ts : List Token} (h : ∀ us : List Token, us.length < ts.length → ReadsAll us) :
    ReadsValue ts := by
  intro hRange d rest hYields
  obtain ⟨t, rfl, hToken⟩ | ⟨rfl, rfl⟩ | ⟨inner, items, rfl, hItems, rfl⟩ | ⟨rfl, rfl⟩ |
    ⟨inner, members, rfl, hMembers, rfl⟩ := hYields.cases
  · obtain ⟨hFirst, hRest⟩ := List.forall_mem_cons.mp hRange
    exact ⟨hRest, fun j hj => denotes_of_token hFirst hToken hj⟩
  · refine ⟨(List.forall_mem_cons.mp (List.forall_mem_cons.mp hRange).2).2, ?_⟩
    rintro j ⟨⟩
    trivial
  · have hInner := (List.forall_mem_cons.mp hRange).2
    obtain ⟨hRest, hAll⟩ := (h inner Shorter.length_one).2.1 hInner items rest hItems
    refine ⟨hRest, fun j hj => ?_⟩
    obtain ⟨js, hjs, rfl⟩ := Option.map_eq_some_iff.mp hj
    exact denotes_array.mpr (hAll js hjs)
  · refine ⟨(List.forall_mem_cons.mp (List.forall_mem_cons.mp hRange).2).2, ?_⟩
    rintro j ⟨⟩
    trivial
  · have hInner := (List.forall_mem_cons.mp hRange).2
    obtain ⟨hRest, hAll⟩ := (h inner Shorter.length_one).2.2 hInner members rest hMembers
    refine ⟨hRest, fun j hj => ?_⟩
    obtain ⟨ms, hms, rfl⟩ := Option.map_eq_some_iff.mp hj
    exact denotes_object.mpr fun m hm => hAll ms hms m (mem_of_mem_sortMembers hm)

theorem readsItems {ts : List Token} (h : ∀ us : List Token, us.length < ts.length → ReadsAll us)
    (hValue : ReadsValue ts) : ReadsItems ts := by
  intro hRange items rest hYields
  obtain ⟨item, hItem, rfl⟩ | ⟨item, next, more, hItem, hMore, rfl⟩ := hYields.cases
  · obtain ⟨hClose, hDenotes⟩ := hValue hRange item _ hItem
    refine ⟨(List.forall_mem_cons.mp hClose).2, fun js hjs => ?_⟩
    obtain ⟨x, xs, hx, hNone, rfl⟩ := valuesOfItems?_cons_eq_some hjs
    cases hNone
    exact List.forall_mem_cons.mpr ⟨hDenotes x hx, List.forall_mem_nil _⟩
  · obtain ⟨hComma, hDenotes⟩ := hValue hRange item _ hItem
    have hNext := (List.forall_mem_cons.mp hComma).2
    have hShorter := Shorter.length_tail hItem.length_lt
    obtain ⟨hRest, hAll⟩ := (h next hShorter).2.1 hNext more rest hMore
    refine ⟨hRest, fun js hjs => ?_⟩
    obtain ⟨x, xs, hx, hxs, rfl⟩ := valuesOfItems?_cons_eq_some hjs
    exact List.forall_mem_cons.mpr ⟨hDenotes x hx, hAll xs hxs⟩

theorem readsMembers {ts : List Token}
    (h : ∀ us : List Token, us.length < ts.length → ReadsAll us) : ReadsMembers ts := by
  intro hRange members rest hYields
  obtain ⟨key, inner, value, rfl, hCases⟩ := hYields.cases
  have hInner := (List.forall_mem_cons.mp (List.forall_mem_cons.mp hRange).2).2
  have hValue := (h inner Shorter.length_two).1 hInner value
  obtain ⟨hLast, rfl⟩ | ⟨next, more, hFirst, hMore, rfl⟩ := hCases
  · obtain ⟨hClose, hDenotes⟩ := hValue _ hLast
    refine ⟨(List.forall_mem_cons.mp hClose).2, fun ms hms => ?_⟩
    obtain ⟨name, x, xs, hx, hNone, rfl⟩ := valuesOfMembers?_cons_eq_some hms
    cases hNone
    exact List.forall_mem_cons.mpr ⟨hDenotes x hx, List.forall_mem_nil _⟩
  · obtain ⟨hComma, hDenotes⟩ := hValue _ hFirst
    have hNext := (List.forall_mem_cons.mp hComma).2
    have hShorter : next.length < (.text key :: .colon :: inner : List Token).length :=
      Shorter.length_cons_cons (Shorter.length_tail hFirst.length_lt)
    obtain ⟨hRest, hAll⟩ := (h next hShorter).2.2 hNext more rest hMore
    refine ⟨hRest, fun ms hms => ?_⟩
    obtain ⟨name, x, xs, hx, hxs, rfl⟩ := valuesOfMembers?_cons_eq_some hms
    exact List.forall_mem_cons.mpr ⟨hDenotes x hx, hAll xs hxs⟩

theorem readsAll (ts : List Token) : ReadsAll ts := by
  induction hLength : ts.length using Nat.strongRecOn generalizing ts with
  | ind n ih =>
    have hShorter : ∀ us : List Token, us.length < ts.length → ReadsAll us := fun us h =>
      ih us.length (hLength ▸ h) us rfl
    have hValue := readsValue hShorter
    exact ⟨hValue, readsItems hShorter hValue, readsMembers hShorter⟩

end Document

/-- A value that is read can be written, and is nested no deeper than is read. -/
theorem of_valueWithin? {cs : List Char} {d : Document} {rest : List Token} {j : Json}
    (hYields : Document.Yields (tokens cs) d rest) (h : d.valueWithin? 0 = some j) :
    j.Denotes ∧ j.depth ≤ Document.maxDepth := by
  rw [Document.valueWithin?, Option.ite_none_right_eq_some, Nat.zero_add] at h
  obtain ⟨hDepth, hValue⟩ := h
  constructor
  · exact ((Document.readsAll _).1 (inRange_tokens cs) d rest hYields).2 j hValue
  · exact Nat.le_trans (Document.depth_value? d hValue) hDepth

theorem of_readFirstValue? {s : String} {j : Json} (h : readFirstValue? s = some j) :
    j.Denotes ∧ j.depth ≤ Document.maxDepth := by
  obtain ⟨d, hRead, hValue⟩ := Option.bind_eq_some_iff.mp h
  obtain ⟨⟨d', rest, hShorter⟩, hTokens, rfl⟩ := Option.map_eq_some_iff.mp hRead
  exact of_valueWithin? ⟨hShorter, hTokens⟩ hValue

theorem of_readValue? {s : String} {j : Json} (h : readValue? s = some j) :
    j.Denotes ∧ j.depth ≤ Document.maxDepth := by
  obtain ⟨d, hRead, hValue⟩ := Option.bind_eq_some_iff.mp h
  exact of_valueWithin? (Document.read?_eq_some_iff.mp hRead) hValue

end TableGateway.Json
