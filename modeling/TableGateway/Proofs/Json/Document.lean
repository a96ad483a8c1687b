import TableGateway.Json.Document
import TableGateway.Proofs.Json.Reread
import TableGateway.Proofs.Json.Text

/-!
# Documents that are read back

A document in which every part denotes something is read back from its text with the same members
in the same order. Only its doubles may have changed.
-/

namespace TableGateway.Json.Document

variable {d item value : Document} {items : List Document} {key : Option String}
  {members : List (Option String × Document)} {ts inner next rest : List Token}

def Yields (ts : List Token) (d : Document) (rest : List Token) : Prop :=
  ∃ h, ofTokens? ts = some (d, ⟨rest, h⟩)

def YieldsItems (ts : List Token) (items : List Document) (rest : List Token) : Prop :=
  ∃ h, itemsOfTokens? ts = some (items, ⟨rest, h⟩)

def YieldsMembers (ts : List Token) (members : List (Option String × Document))
    (rest : List Token) : Prop :=
  ∃ h, membersOfTokens? ts = some (members, ⟨rest, h⟩)

/-- The document that a token is by itself. -/
def ofToken? : Token → Option Document
  | .null => some .null
  | .bool b => some (.bool b)
  | .number n => some (n.elim .void .number)
  | .text s => some (s.elim .void .text)
  | _ => none

theorem yields_of_token {t : Token} (h : ofToken? t = some d) : Yields (t :: rest) d rest := by
  refine ⟨Shorter.length_one, ?_⟩
  cases t with
  | null | bool b =>
    cases h
    rw [ofTokens?]
  | number x | text x =>
    cases h
    cases x <;> rw [ofTokens?] <;> rfl
  | _ => cases h

theorem yields_emptyArray : Yields (.openArray :: .closeArray :: rest) (.array []) rest :=
  ⟨Shorter.length_two, by rw [ofTokens?]⟩

theorem yields_emptyObject : Yields (.openObject :: .closeObject :: rest) (.object []) rest :=
  ⟨Shorter.length_two, by rw [ofTokens?]⟩

theorem YieldsItems.array (h : YieldsItems inner items rest) :
    Yields (.openArray :: inner) (.array items) rest := by
  obtain ⟨hShorter, hItems⟩ := h
  refine ⟨Shorter.length_cons hShorter, ?_⟩
  rw [ofTokens?, hItems]
  rintro after rfl
  rw [itemsOfTokens?, ofTokens?] at hItems
  · cases hItems
  all_goals simp

theorem YieldsMembers.object (h : YieldsMembers inner members rest) :
    Yields (.openObject :: inner) (.object members) rest := by
  obtain ⟨hShorter, hMembers⟩ := h
  refine ⟨Shorter.length_cons hShorter, ?_⟩
  rw [ofTokens?, hMembers]
  rintro after rfl
  rw [membersOfTokens?] at hMembers
  · cases hMembers
  · simp

theorem Yields.last (h : Yields ts item (.closeArray :: rest)) : YieldsItems ts [item] rest := by
  obtain ⟨hShorter, hItem⟩ := h
  refine ⟨Shorter.length_tail hShorter, ?_⟩
  rw [itemsOfTokens?, hItem]

theorem Yields.more (h : Yields ts item (.comma :: next)) (hItems : YieldsItems next items rest) :
    YieldsItems ts (item :: items) rest := by
  obtain ⟨hShorter, hItem⟩ := h
  obtain ⟨hShorter', hItems⟩ := hItems
  refine ⟨Nat.lt_trans hShorter' (Shorter.length_tail hShorter), ?_⟩
  rw [itemsOfTokens?, hItem]
  simp only [hItems]

theorem Yields.lastMember (h : Yields ts value (.closeObject :: rest)) :
    YieldsMembers (.text key :: .colon :: ts) [(key, value)] rest := by
  obtain ⟨hShorter, hValue⟩ := h
  refine ⟨Shorter.length_cons_cons (Shorter.length_tail hShorter), ?_⟩
  rw [membersOfTokens?, hValue]

theorem Yields.moreMembers (h : Yields ts value (.comma :: next))
    (hMembers : YieldsMembers next members rest) :
    YieldsMembers (.text key :: .colon :: ts) ((key, value) :: members) rest := by
  obtain ⟨hShorter, hValue⟩ := h
  obtain ⟨hShorter', hMembers⟩ := hMembers
  refine ⟨Nat.lt_trans hShorter' (Shorter.length_cons_cons (Shorter.length_tail hShorter)), ?_⟩
  rw [membersOfTokens?, hValue]
  simp only [hMembers]

theorem Yields.cases (h : Yields ts d rest) :
    (∃ t, ts = t :: rest ∧ ofToken? t = some d) ∨
    (ts = .openArray :: .closeArray :: rest ∧ d = .array []) ∨
    (∃ inner items, ts = .openArray :: inner ∧ YieldsItems inner items rest ∧ d = .array items) ∨
    (ts = .openObject :: .closeObject :: rest ∧ d = .object []) ∨
    ∃ inner members,
      ts = .openObject :: inner ∧ YieldsMembers inner members rest ∧ d = .object members := by
  obtain ⟨hShorter, h⟩ := h
  rw [ofTokens?.eq_def] at h
  split at h
  case h_7 =>
    cases h
    exact .inr (.inl ⟨rfl, rfl⟩)
  case h_8 =>
    split at h
    · next hItems =>
      cases h
      exact .inr (.inr (.inl ⟨_, _, rfl, ⟨_, hItems⟩, rfl⟩))
    · cases h
  case h_9 =>
    cases h
    exact .inr (.inr (.inr (.inl ⟨rfl, rfl⟩)))
  case h_10 =>
    split at h
    · next hMembers =>
      cases h
      exact .inr (.inr (.inr (.inr ⟨_, _, rfl, ⟨_, hMembers⟩, rfl⟩)))
    · cases h
  case h_11 => cases h
  all_goals
    cases h
    exact .inl ⟨_, rfl, rfl⟩

theorem YieldsItems.cases (h : YieldsItems ts items rest) :
    (∃ item, Yields ts item (.closeArray :: rest) ∧ items = [item]) ∨
    ∃ item next more, Yields ts item (.comma :: next) ∧ YieldsItems next more rest ∧
      items = item :: more := by
  obtain ⟨hShorter, h⟩ := h
  rw [itemsOfTokens?] at h
  split at h
  · next hItem =>
    cases h
    exact .inl ⟨_, ⟨_, hItem⟩, rfl⟩
  · next hItem =>
    split at h
    · next hMore =>
      cases h
      exact .inr ⟨_, _, _, ⟨_, hItem⟩, ⟨_, hMore⟩, rfl⟩
    · cases h
  · cases h

theorem YieldsMembers.cases (h : YieldsMembers ts members rest) :
    ∃ key inner value, ts = .text key :: .colon :: inner ∧
      ((Yields inner value (.closeObject :: rest) ∧ members = [(key, value)]) ∨
      ∃ next more, Yields inner value (.comma :: next) ∧ YieldsMembers next more rest ∧
        members = (key, value) :: more) := by
  obtain ⟨hShorter, h⟩ := h
  rw [membersOfTokens?.eq_def] at h
  split at h
  · split at h
    · next hValue =>
      cases h
      exact ⟨_, _, _, rfl, .inl ⟨⟨_, hValue⟩, rfl⟩⟩
    · next hValue =>
      split at h
      · next hMore =>
        cases h
        exact ⟨_, _, _, rfl, .inr ⟨_, _, ⟨_, hValue⟩, ⟨_, hMore⟩, rfl⟩⟩
      · cases h
    · cases h
  · cases h

theorem Yields.length_lt (h : Yields ts d rest) : rest.length < ts.length := h.1

mutual

/-- Every part denotes something: numbers are in range, and nothing is `void`. -/
def Denotes : Document → Prop
  | .null | .bool _ | .text _ => True
  | .void => False
  | .number n => n.InRange
  | .array items => DenotesItems items
  | .object members => DenotesMembers members

def DenotesItems : List Document → Prop
  | [] => True
  | d :: ds => Denotes d ∧ DenotesItems ds

def DenotesMembers : List (Option String × Document) → Prop
  | [] => True
  | (key, d) :: ds => key.isSome = true ∧ Denotes d ∧ DenotesMembers ds

end

mutual

/-- What a document is read back as. -/
def reread : Document → Document
  | .null => .null
  | .bool b => .bool b
  | .number n => n.reread?.elim .void .number
  | .text s => .text s
  | .void => .void
  | .array items => .array (rereadItems items)
  | .object members => .object (rereadMembers members)

def rereadItems : List Document → List Document
  | [] => []
  | d :: ds => reread d :: rereadItems ds

def rereadMembers : List (Option String × Document) → List (Option String × Document)
  | [] => []
  | (key, d) :: ds => (key, reread d) :: rereadMembers ds

end

theorem tokens_of_scanToken {cs after : List Char} {t : Token} (h : scanToken cs = some (t, after))
    (hSpace : ∀ c ∈ cs.head?, isSpace c = false) : tokens cs = t :: tokens after := by
  cases cs with
  | nil => cases h
  | cons c cs =>
    rw [tokens_cons, hSpace c rfl, h]
    rfl

theorem tokens_quote (s : String) (after : List Char) :
    tokens (quote s ++ after) = .text (some s) :: tokens after := by
  apply tokens_of_scanToken (scanToken_quote s after)
  intro c hc
  cases hc
  decide

theorem tokens_of_scanNumber {cs after : List Char} {t : NumberText}
    (h : scanNumber cs = some (t, after)) : tokens cs = .number t.number? :: tokens after := by
  apply tokens_of_scanToken (NumberText.scanToken_of_scanNumber h)
  obtain ⟨first, tail, rfl, hFirst⟩ := NumberText.head_of_scanNumber h
  intro c hc
  cases hc
  rw [Bool.eq_false_iff]
  intro hSpace
  simp only [isSpace, Bool.or_eq_true, decide_eq_true_eq] at hSpace
  rcases hFirst with rfl | hDigit
  · revert hSpace
    decide
  · rcases hSpace with ((rfl | rfl) | rfl) | rfl
    all_goals cases hDigit

theorem stops_of_cons {c : Char} (after : List Char) (h : isNumberChar c = false) :
    Text.Stops isNumberChar (c :: after) := by
  intro x hx
  cases hx
  exact h

theorem tokens_null (after : List Char) :
    tokens (Document.null.write ++ after) = .null :: tokens after := by
  have hScan : scanToken ('n' :: 'u' :: 'l' :: 'l' :: after) = some (.null, after) := by
    rw [scanToken]
  apply tokens_of_scanToken hScan
  intro c hc
  cases hc
  decide

theorem tokens_bool (b : Bool) (after : List Char) :
    tokens ((Document.bool b).write ++ after) = .bool b :: tokens after := by
  cases b with
  | true =>
    have hScan : scanToken ('t' :: 'r' :: 'u' :: 'e' :: after) = some (.bool true, after) := by
      rw [scanToken]
    apply tokens_of_scanToken hScan
    intro c hc
    cases hc
    decide
  | false =>
    have hScan : scanToken ('f' :: 'a' :: 'l' :: 's' :: 'e' :: after) =
        some (.bool false, after) := by
      rw [scanToken]
    apply tokens_of_scanToken hScan
    intro c hc
    cases hc
    decide

/-- A character that is a token by itself. -/
theorem tokens_single {c : Char} {t : Token} (h : ∀ after, scanToken (c :: after) = some (t, after))
    (hSpace : isSpace c = false) (after : List Char) : tokens (c :: after) = t :: tokens after := by
  apply tokens_of_scanToken (h after)
  intro x hx
  cases hx
  exact hSpace

theorem tokens_openArray (after : List Char) : tokens ('[' :: after) = .openArray :: tokens after :=
  tokens_single (fun cs => by rw [scanToken]) (by decide) after

theorem tokens_closeArray (after : List Char) :
    tokens (']' :: after) = .closeArray :: tokens after :=
  tokens_single (fun cs => by rw [scanToken]) (by decide) after

theorem tokens_openObject (after : List Char) :
    tokens ('\x7b' :: after) = .openObject :: tokens after :=
  tokens_single (fun cs => by rw [scanToken]) (by decide) after

theorem tokens_closeObject (after : List Char) :
    tokens ('\x7d' :: after) = .closeObject :: tokens after :=
  tokens_single (fun cs => by rw [scanToken]) (by decide) after

theorem tokens_comma (after : List Char) : tokens (',' :: after) = .comma :: tokens after :=
  tokens_single (fun cs => by rw [scanToken]) (by decide) after

theorem tokens_colon (after : List Char) : tokens (':' :: after) = .colon :: tokens after :=
  tokens_single (fun cs => by rw [scanToken]) (by decide) after

theorem tokens_writeMember (m : String × List Char) (after : List Char) :
    tokens (writeMember m ++ after) = .text (some m.1) :: .colon :: tokens (m.2 ++ after) := by
  rw [writeMember, List.append_assoc, tokens_quote, List.cons_append, tokens_colon]

theorem stops_items (xs : List (List Char)) (after : List Char) :
    Text.Stops isNumberChar (xs.flatMap (fun cs => ',' :: cs) ++ ']' :: after) := by
  cases xs with
  | nil => exact stops_of_cons after (by decide)
  | cons x xs => exact stops_of_cons _ (by decide)

theorem stops_members (ms : List (String × List Char)) (after : List Char) :
    Text.Stops isNumberChar (ms.flatMap (fun m => ',' :: writeMember m) ++ '\x7d' :: after) := by
  cases ms with
  | nil => exact stops_of_cons after (by decide)
  | cons m ms => exact stops_of_cons _ (by decide)

mutual

theorem yields_write (d : Document) {after : List Char} (h : d.Denotes)
    (hStops : Text.Stops isNumberChar after) :
    Yields (tokens (d.write ++ after)) d.reread (tokens after) := by
  match d with
  | .null =>
    rw [tokens_null, reread]
    exact yields_of_token rfl
  | .bool b =>
    rw [tokens_bool, reread]
    exact yields_of_token rfl
  | .number n =>
    obtain ⟨n', hNumber⟩ := Option.isSome_iff_exists.mp (Number.isSome_reread? h)
    rw [write, tokens_of_scanNumber (n.scanNumber_write hStops), ← Number.reread?, reread, hNumber]
    exact yields_of_token rfl
  | .text s =>
    rw [write, tokens_quote, reread]
    exact yields_of_token rfl
  | .void => exact h.elim
  | .array [] =>
    change Yields (tokens ('[' :: ']' :: after)) _ _
    rw [tokens_openArray, tokens_closeArray, reread, rereadItems]
    exact yields_emptyArray
  | .array (x :: xs) =>
    rw [Denotes, DenotesItems] at h
    have hItem := yields_write x h.1 (stops_items (writeItems xs) after)
    rw [write, writeItems, brackets, List.cons_append, List.cons_append, List.cons_append,
      tokens_openArray,
      List.append_assoc, List.append_assoc, List.singleton_append, reread, rereadItems]
    exact (yieldsItems_write xs h.2 hItem).array
  | .object [] =>
    change Yields (tokens ('\x7b' :: '\x7d' :: after)) _ _
    rw [tokens_openObject, tokens_closeObject, reread, rereadMembers]
    exact yields_emptyObject
  | .object ((key, x) :: ms) =>
    rw [Denotes, DenotesMembers] at h
    obtain ⟨k, rfl⟩ := Option.isSome_iff_exists.mp h.1
    have hValue := yields_write x h.2.1 (stops_members (writeMembers ms) after)
    rw [write, writeMembers, braces, List.cons_append, List.cons_append, List.cons_append,
      tokens_openObject,
      List.append_assoc, List.append_assoc, List.singleton_append, tokens_writeMember, reread,
      rereadMembers]
    exact (yieldsMembers_write ms h.2.2 hValue).object

/-- The items after one that was read. -/
theorem yieldsItems_write (xs : List Document) {ts : List Token} {item : Document}
    {after : List Char} (h : DenotesItems xs)
    (hItem : Yields ts item
      (tokens ((writeItems xs).flatMap (fun cs => ',' :: cs) ++ ']' :: after))) :
    YieldsItems ts (item :: rereadItems xs) (tokens after) := by
  match xs with
  | [] =>
    rw [writeItems, List.flatMap_nil, List.nil_append, tokens_closeArray] at hItem
    exact hItem.last
  | x :: xs =>
    rw [DenotesItems] at h
    rw [writeItems, List.flatMap_cons, List.cons_append, List.cons_append, List.append_assoc,
      tokens_comma] at hItem
    have hNext := yields_write x h.1 (stops_items (writeItems xs) after)
    exact hItem.more (yieldsItems_write xs h.2 hNext)

/-- The members after one that was read. -/
theorem yieldsMembers_write (ms : List (Option String × Document)) {ts : List Token}
    {key : Option String} {value : Document} {after : List Char} (h : DenotesMembers ms)
    (hValue : Yields ts value
      (tokens ((writeMembers ms).flatMap (fun m => ',' :: writeMember m) ++ '\x7d' :: after))) :
    YieldsMembers (.text key :: .colon :: ts) ((key, value) :: rereadMembers ms)
      (tokens after) := by
  match ms with
  | [] =>
    rw [writeMembers, List.flatMap_nil, List.nil_append, tokens_closeObject] at hValue
    exact hValue.lastMember
  | (k, x) :: ms =>
    rw [DenotesMembers] at h
    obtain ⟨name, rfl⟩ := Option.isSome_iff_exists.mp h.1
    rw [writeMembers, List.flatMap_cons, List.cons_append, List.cons_append, List.append_assoc,
      tokens_comma, tokens_writeMember] at hValue
    have hNext := yields_write x h.2.1 (stops_members (writeMembers ms) after)
    exact hValue.moreMembers (yieldsMembers_write ms h.2.2 hNext)

end

theorem read?_eq_some_iff {cs : List Char} {d : Document} :
    read? cs = some d ↔ Yields (tokens cs) d [] := by
  rw [read?]
  constructor
  · intro h
    split at h
    · next hRead =>
      cases h
      exact ⟨_, hRead⟩
    · cases h
  · rintro ⟨hShorter, hRead⟩
    rw [hRead]

/-- A document that denotes something is read back from its text. -/
theorem read?_write (h : d.Denotes) : read? d.write = some d.reread := by
  have hEnd : tokens [] = [] := by rw [tokens]
  have hStops : Text.Stops isNumberChar [] := fun c hc => absurd hc (Option.not_mem_none c)
  have hYields := yields_write d h hStops
  rw [List.append_nil, hEnd] at hYields
  exact read?_eq_some_iff.mpr hYields

theorem denotesItems_iff : DenotesItems items ↔ ∀ d ∈ items, d.Denotes := by
  induction items with
  | nil => simp [DenotesItems]
  | cons d ds ih => rw [DenotesItems, ih, List.forall_mem_cons]

theorem denotesMembers_iff :
    DenotesMembers members ↔ ∀ m ∈ members, m.1.isSome = true ∧ m.2.Denotes := by
  induction members with
  | nil => simp [DenotesMembers]
  | cons m ms ih => rw [DenotesMembers, ih, List.forall_mem_cons, and_assoc]

theorem rereadItems_eq (items : List Document) : rereadItems items = items.map reread := by
  induction items with
  | nil => rfl
  | cons d ds ih => rw [rereadItems, ih, List.map_cons]

theorem rereadMembers_eq (members : List (Option String × Document)) :
    rereadMembers members = members.map fun m => (m.1, m.2.reread) := by
  induction members with
  | nil => rfl
  | cons m ms ih => rw [rereadMembers, ih, List.map_cons]

/-- What is read back is the document itself. -/
structure IsKept (d : Document) : Prop where
  denotes : d.Denotes
  reread_eq : d.reread = d

theorem isKept_bool (b : Bool) : (Document.bool b).IsKept := ⟨trivial, rfl⟩

theorem isKept_text (s : String) : (Document.text s).IsKept := ⟨trivial, rfl⟩

theorem isKept_array (h : ∀ d ∈ items, d.IsKept) : (Document.array items).IsKept := by
  constructor
  · exact denotesItems_iff.mpr fun d hd => (h d hd).denotes
  · rw [reread, rereadItems_eq, List.map_congr_left fun d hd => (h d hd).reread_eq, List.map_id']

theorem isKept_object (h : ∀ m ∈ members, m.1.isSome = true ∧ m.2.IsKept) :
    (Document.object members).IsKept := by
  constructor
  · exact denotesMembers_iff.mpr fun m hm => ⟨(h m hm).1, (h m hm).2.denotes⟩
  · have hSame : ∀ m ∈ members, (m.1, m.2.reread) = m :=
      fun m hm => by rw [(h m hm).2.reread_eq]
    rw [reread, rereadMembers_eq, List.map_congr_left hSame, List.map_id']

theorem IsKept.read?_write (h : d.IsKept) : read? d.write = some d := by
  rw [Document.read?_write h.denotes, h.reread_eq]

mutual

theorem depth_reread (d : Document) : d.reread.depth = d.depth := by
  match d with
  | .null | .bool _ | .text _ | .void => rw [reread]
  | .number n =>
    rw [reread]
    cases n.reread? with
    | none => rfl
    | some _ => rfl
  | .array items => rw [reread, depth, depth, depthOfItems_reread items]
  | .object members => rw [reread, depth, depth, depthOfMembers_reread members]

theorem depthOfItems_reread (items : List Document) :
    depthOfItems (rereadItems items) = depthOfItems items := by
  match items with
  | [] => rw [rereadItems]
  | d :: ds => rw [rereadItems, depthOfItems, depthOfItems, depth_reread d, depthOfItems_reread ds]

theorem depthOfMembers_reread (members : List (Option String × Document)) :
    depthOfMembers (rereadMembers members) = depthOfMembers members := by
  match members with
  | [] => rw [rereadMembers]
  | (key, d) :: ds =>
    rw [rereadMembers, depthOfMembers, depthOfMembers, depth_reread d, depthOfMembers_reread ds]

end

mutual

theorem isSome_value?_reread (d : Document) (h : d.Denotes) : d.reread.value?.isSome = true := by
  match d with
  | .null | .bool _ | .text _ => rfl
  | .void => exact h.elim
  | .number n =>
    obtain ⟨n', hNumber⟩ := Option.isSome_iff_exists.mp (Number.isSome_reread? h)
    rw [reread, hNumber]
    rfl
  | .array items =>
    rw [reread, value?, Option.isSome_map]
    exact isSome_valuesOfItems?_reread items h
  | .object members =>
    rw [reread, value?, Option.isSome_map]
    exact isSome_valuesOfMembers?_reread members h

theorem isSome_valuesOfItems?_reread (items : List Document) (h : DenotesItems items) :
    (valuesOfItems? (rereadItems items)).isSome = true := by
  match items with
  | [] => rfl
  | d :: ds =>
    obtain ⟨v, hValue⟩ := Option.isSome_iff_exists.mp (isSome_value?_reread d h.1)
    obtain ⟨vs, hValues⟩ := Option.isSome_iff_exists.mp (isSome_valuesOfItems?_reread ds h.2)
    rw [rereadItems, valuesOfItems?, hValue, hValues]
    rfl

theorem isSome_valuesOfMembers?_reread (members : List (Option String × Document))
    (h : DenotesMembers members) : (valuesOfMembers? (rereadMembers members)).isSome = true := by
  match members with
  | [] => rfl
  | (key, d) :: ds =>
    obtain ⟨k, rfl⟩ := Option.isSome_iff_exists.mp h.1
    obtain ⟨v, hValue⟩ := Option.isSome_iff_exists.mp (isSome_value?_reread d h.2.1)
    obtain ⟨vs, hValues⟩ := Option.isSome_iff_exists.mp (isSome_valuesOfMembers?_reread ds h.2.2)
    rw [rereadMembers, valuesOfMembers?.eq_def]
    simp only [hValue, hValues]
    rfl

end

theorem readValue?_toText (h : d.Denotes) :
    readValue? d.toText = if d.depth ≤ maxDepth then d.reread.value? else none := by
  rw [readValue?, toText, String.toList_ofList, read?_write h, Option.bind_some, valueWithin?,
    depth_reread, Nat.zero_add]

end TableGateway.Json.Document
