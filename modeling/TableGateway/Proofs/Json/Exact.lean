import TableGateway.Proofs.Json.Value

/-!
# What JSON texts say

The grammar relates a text to everything that is written in it, before a number is rounded or the
characters of a string are put together. A text is related to one content, in which the tokens of
the text are read as a document.
-/

namespace TableGateway.Json

open Document (Yields YieldsItems YieldsMembers)

/-- The content of a text, before a number is rounded or a string is put together. -/
inductive Exact
  | null
  | bool (b : Bool)
  | number (t : NumberText)
  | text (parts : List StringPart)
  | array (items : List Exact)
  | object (members : List (List StringPart × Exact))

namespace Exact

variable {cs rest rest' : List Char} {parts parts' : List StringPart} {t : NumberText}

/-- The text after its blanks. -/
def skip (cs : List Char) : List Char := cs.dropWhile isSpace

/-- The parts of a string up to its closing quote, and what follows the quote. -/
inductive SpellsParts : List Char → List StringPart → List Char → Prop
  | done (rest : List Char) : SpellsParts ('"' :: rest) [] rest
  | plain {c : Char} {cs rest : List Char} {parts : List StringPart} (hQuote : c ≠ '"')
      (hSlash : c ≠ '\\') (hControl : ¬ c < ' ') (h : SpellsParts cs parts rest) :
      SpellsParts (c :: cs) (.char c :: parts) rest
  | escaped {e c : Char} {cs rest : List Char} {parts : List StringPart}
      (hEscape : unescaped? e = some c) (h : SpellsParts cs parts rest) :
      SpellsParts ('\\' :: e :: cs) (.char c :: parts) rest
  | unit {a b c d : Char} {n : Nat} {cs rest : List Char} {parts : List StringPart}
      (hUnit : hexUnit? a b c d = some n) (h : SpellsParts cs parts rest) :
      SpellsParts ('\\' :: 'u' :: a :: b :: c :: d :: cs) (.unit n :: parts) rest

/-- A number, which is cut off where no character goes on with it. -/
def SpellsNumber (cs : List Char) (t : NumberText) (rest : List Char) : Prop :=
  t.WellFormed ∧ Text.Stops isNumberChar rest ∧ ∃ front, t.Spells front ∧ cs = front ++ rest

/-- The name of a member with the colon after it. -/
def SpellsKey (cs : List Char) (parts : List StringPart) (rest : List Char) : Prop :=
  ∃ opened closed, skip cs = '"' :: opened ∧ SpellsParts opened parts closed ∧
    skip closed = ':' :: rest

mutual

/-- A value at the front of a text, and what follows it. -/
inductive Spells : List Char → Exact → List Char → Prop
  | null (rest : List Char) : Spells ('n' :: 'u' :: 'l' :: 'l' :: rest) .null rest
  | true (rest : List Char) : Spells ('t' :: 'r' :: 'u' :: 'e' :: rest) (.bool true) rest
  | false (rest : List Char) : Spells ('f' :: 'a' :: 'l' :: 's' :: 'e' :: rest) (.bool false) rest
  | number {cs rest : List Char} {t : NumberText} (h : SpellsNumber cs t rest) :
      Spells cs (.number t) rest
  | text {cs rest : List Char} {parts : List StringPart} (h : SpellsParts cs parts rest) :
      Spells ('"' :: cs) (.text parts) rest
  | emptyArray {cs rest : List Char} (h : skip cs = ']' :: rest) :
      Spells ('[' :: cs) (.array []) rest
  | array {cs rest : List Char} {items : List Exact} (h : SpellsItems cs items rest) :
      Spells ('[' :: cs) (.array items) rest
  | emptyObject {cs rest : List Char} (h : skip cs = '\x7d' :: rest) :
      Spells ('\x7b' :: cs) (.object []) rest
  | object {cs rest : List Char} {members : List (List StringPart × Exact)}
      (h : SpellsMembers cs members rest) : Spells ('\x7b' :: cs) (.object members) rest

/-- Values with commas between them, up to the closing bracket. -/
inductive SpellsItems : List Char → List Exact → List Char → Prop
  | last {cs after rest : List Char} {x : Exact} (h : Spells (skip cs) x after)
      (hEnd : skip after = ']' :: rest) : SpellsItems cs [x] rest
  | more {cs after next rest : List Char} {x : Exact} {items : List Exact}
      (h : Spells (skip cs) x after) (hComma : skip after = ',' :: next)
      (hItems : SpellsItems next items rest) : SpellsItems cs (x :: items) rest

/-- Members with commas between them, up to the closing brace. -/
inductive SpellsMembers : List Char → List (List StringPart × Exact) → List Char → Prop
  | last {cs valueText after rest : List Char} {parts : List StringPart} {x : Exact}
      (hKey : SpellsKey cs parts valueText) (h : Spells (skip valueText) x after)
      (hEnd : skip after = '\x7d' :: rest) : SpellsMembers cs [(parts, x)] rest
  | more {cs valueText after next rest : List Char} {parts : List StringPart} {x : Exact}
      {members : List (List StringPart × Exact)} (hKey : SpellsKey cs parts valueText)
      (h : Spells (skip valueText) x after) (hComma : skip after = ',' :: next)
      (hMembers : SpellsMembers next members rest) : SpellsMembers cs ((parts, x) :: members) rest

end

mutual

/-- The document that is found in the text. -/
def toDocument : Exact → Document
  | .null => .null
  | .bool b => .bool b
  | .number t => t.number?.elim .void .number
  | .text parts => ((characters? parts).map String.ofList).elim .void .text
  | .array items => .array (itemsToDocuments items)
  | .object members => .object (membersToDocuments members)

def itemsToDocuments : List Exact → List Document
  | [] => []
  | x :: xs => toDocument x :: itemsToDocuments xs

def membersToDocuments : List (List StringPart × Exact) → List (Option String × Document)
  | [] => []
  | (parts, x) :: ms =>
    ((characters? parts).map String.ofList, toDocument x) :: membersToDocuments ms

end

theorem tokens_skip (cs : List Char) : tokens (skip cs) = tokens cs := by
  induction cs with
  | nil => rfl
  | cons c cs ih =>
    rw [skip, List.dropWhile_cons]
    split
    · next hSpace =>
      rw [tokens_cons, if_pos hSpace]
      exact ih
    · rfl

theorem tokens_of_skip {c : Char} (h : skip cs = c :: rest) : tokens cs = tokens (c :: rest) := by
  rw [← tokens_skip, h]

theorem SpellsParts.scanString_eq (h : SpellsParts cs parts rest) :
    scanString cs = some (parts, rest) := by
  induction h with
  | done rest => rw [scanString]
  | plain hQuote hSlash hControl _ ih =>
    rw [scanString_plain hQuote hSlash hControl, ih]
    rfl
  | escaped hEscape _ ih =>
    rw [scanString_escaped (by rintro rfl; cases hEscape) hEscape, ih]
    rfl
  | unit hUnit _ ih =>
    rw [scanString_unit hUnit, ih]
    rfl

theorem SpellsParts.tokens_eq (h : SpellsParts cs parts rest) :
    tokens ('"' :: cs) = .text ((characters? parts).map String.ofList) :: tokens rest := by
  have hScan : scanToken ('"' :: cs) =
      some (.text ((characters? parts).map String.ofList), rest) := by
    rw [scanToken, h.scanString_eq]
    rfl
  apply Document.tokens_of_scanToken hScan
  rintro c ⟨⟩
  decide

theorem SpellsNumber.scanNumber_eq (h : SpellsNumber cs t rest) :
    scanNumber cs = some (t, rest) := by
  obtain ⟨hForm, hStops, front, hText, rfl⟩ := h
  exact NumberText.scanNumber_append hForm hText hStops

theorem SpellsKey.tokens_eq (h : SpellsKey cs parts rest) :
    tokens cs = .text ((characters? parts).map String.ofList) :: .colon :: tokens rest := by
  obtain ⟨opened, closed, hOpen, hParts, hColon⟩ := h
  rw [tokens_of_skip hOpen, hParts.tokens_eq, tokens_of_skip hColon, Document.tokens_colon]

mutual

theorem Spells.yields {cs rest : List Char} {x : Exact} (h : Spells cs x rest) :
    Yields (tokens cs) x.toDocument (tokens rest) := by
  match h with
  | .null rest => exact Document.tokens_null rest ▸ Document.yields_of_token rfl
  | .true rest => exact Document.tokens_bool true rest ▸ Document.yields_of_token rfl
  | .false rest => exact Document.tokens_bool false rest ▸ Document.yields_of_token rfl
  | .number hNumber =>
    rw [Document.tokens_of_scanNumber hNumber.scanNumber_eq]
    exact Document.yields_of_token rfl
  | .text hParts =>
    rw [hParts.tokens_eq]
    exact Document.yields_of_token rfl
  | .emptyArray hEnd =>
    rw [Document.tokens_openArray, tokens_of_skip hEnd, Document.tokens_closeArray]
    exact Document.yields_emptyArray
  | .array hItems =>
    rw [Document.tokens_openArray, toDocument]
    exact hItems.yields.array
  | .emptyObject hEnd =>
    rw [Document.tokens_openObject, tokens_of_skip hEnd, Document.tokens_closeObject]
    exact Document.yields_emptyObject
  | .object hMembers =>
    rw [Document.tokens_openObject, toDocument]
    exact hMembers.yields.object

theorem SpellsItems.yields {cs rest : List Char} {items : List Exact}
    (h : SpellsItems cs items rest) :
    YieldsItems (tokens cs) (itemsToDocuments items) (tokens rest) := by
  match h with
  | .last hItem hEnd =>
    have hYields := hItem.yields
    rw [tokens_skip, tokens_of_skip hEnd, Document.tokens_closeArray] at hYields
    exact hYields.last
  | .more hItem hComma hItems =>
    have hYields := hItem.yields
    rw [tokens_skip, tokens_of_skip hComma, Document.tokens_comma] at hYields
    exact hYields.more hItems.yields

theorem SpellsMembers.yields {cs rest : List Char} {members : List (List StringPart × Exact)}
    (h : SpellsMembers cs members rest) :
    YieldsMembers (tokens cs) (membersToDocuments members) (tokens rest) := by
  match h with
  | .last hKey hValue hEnd =>
    have hYields := hValue.yields
    rw [tokens_skip, tokens_of_skip hEnd, Document.tokens_closeObject] at hYields
    rw [hKey.tokens_eq]
    exact hYields.lastMember
  | .more hKey hValue hComma hMembers =>
    have hYields := hValue.yields
    rw [tokens_skip, tokens_of_skip hComma, Document.tokens_comma] at hYields
    rw [hKey.tokens_eq]
    exact hYields.moreMembers hMembers.yields

end

theorem SpellsNumber.head {c : Char} (h : SpellsNumber (c :: cs) t rest) :
    c = '-' ∨ c.isDigit = true := by
  obtain ⟨_, _, hCons, hHead⟩ := NumberText.head_of_scanNumber h.scanNumber_eq
  rw [(List.cons.inj hCons).1]
  exact hHead

theorem SpellsNumber.unique {y : Exact} (h : SpellsNumber cs t rest) (h' : Spells cs y rest') :
    .number t = y ∧ rest = rest' := by
  cases h' with
  | number hNumber =>
    cases h.scanNumber_eq.symm.trans hNumber.scanNumber_eq
    exact ⟨rfl, rfl⟩
  | _ => exact absurd h.head (by decide)

theorem SpellsParts.unique (h : SpellsParts cs parts rest) (h' : SpellsParts cs parts' rest') :
    parts = parts' ∧ rest = rest' := by
  cases h.scanString_eq.symm.trans h'.scanString_eq
  exact ⟨rfl, rfl⟩

theorem SpellsKey.unique (h : SpellsKey cs parts rest) (h' : SpellsKey cs parts' rest') :
    parts = parts' ∧ rest = rest' := by
  obtain ⟨opened, closed, hOpen, hParts, hColon⟩ := h
  obtain ⟨opened', closed', hOpen', hParts', hColon'⟩ := h'
  cases hOpen.symm.trans hOpen'
  obtain ⟨rfl, rfl⟩ := hParts.unique hParts'
  cases hColon.symm.trans hColon'
  exact ⟨rfl, rfl⟩

theorem not_spells_closing {x : Exact} : ¬ Spells (']' :: cs) x rest := by
  intro h
  cases h with
  | number hNumber => exact absurd hNumber.head (by decide)

theorem SpellsItems.not_closing {items : List Exact} (h : SpellsItems cs items rest) :
    skip cs ≠ ']' :: rest' := by
  intro hEnd
  cases h with
  | last hItem | more hItem =>
    rw [hEnd] at hItem
    exact not_spells_closing hItem

theorem SpellsMembers.not_closing {members : List (List StringPart × Exact)}
    (h : SpellsMembers cs members rest) : skip cs ≠ '\x7d' :: rest' := by
  intro hEnd
  cases h with
  | last hKey | more hKey =>
    obtain ⟨_, _, hOpen, -⟩ := hKey
    cases hOpen.symm.trans hEnd

mutual

theorem Spells.unique {cs rest rest' : List Char} {x y : Exact} (h : Spells cs x rest)
    (h' : Spells cs y rest') : x = y ∧ rest = rest' := by
  match h, h' with
  | .number hNumber, h' => exact hNumber.unique h'
  | h, .number hNumber =>
    obtain ⟨hValue, hRest⟩ := hNumber.unique h
    exact ⟨hValue.symm, hRest.symm⟩
  | .null _, .null _ | .true _, .true _ | .false _, .false _ => exact ⟨rfl, rfl⟩
  | .text hParts, .text hParts' =>
    obtain ⟨rfl, rfl⟩ := hParts.unique hParts'
    exact ⟨rfl, rfl⟩
  | .emptyArray hEnd, .emptyArray hEnd' =>
    cases hEnd.symm.trans hEnd'
    exact ⟨rfl, rfl⟩
  | .emptyArray hEnd, .array hItems => exact absurd hEnd hItems.not_closing
  | .array hItems, .emptyArray hEnd => exact absurd hEnd hItems.not_closing
  | .array hItems, .array hItems' =>
    obtain ⟨rfl, rfl⟩ := hItems.unique hItems'
    exact ⟨rfl, rfl⟩
  | .emptyObject hEnd, .emptyObject hEnd' =>
    cases hEnd.symm.trans hEnd'
    exact ⟨rfl, rfl⟩
  | .emptyObject hEnd, .object hMembers => exact absurd hEnd hMembers.not_closing
  | .object hMembers, .emptyObject hEnd => exact absurd hEnd hMembers.not_closing
  | .object hMembers, .object hMembers' =>
    obtain ⟨rfl, rfl⟩ := hMembers.unique hMembers'
    exact ⟨rfl, rfl⟩

theorem SpellsItems.unique {cs rest rest' : List Char} {items items' : List Exact}
    (h : SpellsItems cs items rest) (h' : SpellsItems cs items' rest') :
    items = items' ∧ rest = rest' := by
  match h, h' with
  | .last hItem hEnd, .last hItem' hEnd' =>
    obtain ⟨rfl, rfl⟩ := hItem.unique hItem'
    cases hEnd.symm.trans hEnd'
    exact ⟨rfl, rfl⟩
  | .more hItem hComma hItems, .more hItem' hComma' hItems' =>
    obtain ⟨rfl, rfl⟩ := hItem.unique hItem'
    cases hComma.symm.trans hComma'
    obtain ⟨rfl, rfl⟩ := hItems.unique hItems'
    exact ⟨rfl, rfl⟩
  | .last hItem hEnd, .more hItem' hComma _ =>
    obtain ⟨-, rfl⟩ := hItem.unique hItem'
    cases hEnd.symm.trans hComma
  | .more hItem hComma _, .last hItem' hEnd =>
    obtain ⟨-, rfl⟩ := hItem.unique hItem'
    cases hEnd.symm.trans hComma

theorem SpellsMembers.unique {cs rest rest' : List Char}
    {members members' : List (List StringPart × Exact)} (h : SpellsMembers cs members rest)
    (h' : SpellsMembers cs members' rest') : members = members' ∧ rest = rest' := by
  match h, h' with
  | .last hKey hValue hEnd, .last hKey' hValue' hEnd' =>
    obtain ⟨rfl, rfl⟩ := hKey.unique hKey'
    obtain ⟨rfl, rfl⟩ := hValue.unique hValue'
    cases hEnd.symm.trans hEnd'
    exact ⟨rfl, rfl⟩
  | .more hKey hValue hComma hMembers, .more hKey' hValue' hComma' hMembers' =>
    obtain ⟨rfl, rfl⟩ := hKey.unique hKey'
    obtain ⟨rfl, rfl⟩ := hValue.unique hValue'
    cases hComma.symm.trans hComma'
    obtain ⟨rfl, rfl⟩ := hMembers.unique hMembers'
    exact ⟨rfl, rfl⟩
  | .last hKey hValue hEnd, .more hKey' hValue' hComma _ =>
    obtain ⟨-, rfl⟩ := hKey.unique hKey'
    obtain ⟨-, rfl⟩ := hValue.unique hValue'
    cases hEnd.symm.trans hComma
  | .more hKey hValue hComma _, .last hKey' hValue' hEnd =>
    obtain ⟨-, rfl⟩ := hKey.unique hKey'
    obtain ⟨-, rfl⟩ := hValue.unique hValue'
    cases hEnd.symm.trans hComma

end

end Exact

/-- The whole text says this, with blanks around it or none. -/
def Says (s : String) (x : Exact) : Prop :=
  ∃ rest, x.Spells (Exact.skip s.toList) rest ∧ Exact.skip rest = []

theorem Says.unique {s : String} {x y : Exact} (h : Says s x) (h' : Says s y) : x = y := by
  obtain ⟨rest, hSpells, -⟩ := h
  obtain ⟨rest', hSpells', -⟩ := h'
  exact (hSpells.unique hSpells').1

theorem Says.read?_eq {s : String} {x : Exact} (h : Says s x) :
    Document.read? s.toList = some x.toDocument := by
  obtain ⟨rest, hSpells, hEnd⟩ := h
  have hYields := hSpells.yields
  rw [Exact.tokens_skip, ← Exact.tokens_skip rest, hEnd, tokens] at hYields
  exact Document.read?_eq_some_iff.mpr hYields

end TableGateway.Json
