import TableGateway.Proofs.Calendar.Format
import TableGateway.Proofs.Filter.Typing
import TableGateway.Proofs.Uuid

/-!
# Literals of a type

What a text has to be for a column of each type, said by how it is spelled. Every literal is taken,
and what is none is refused with an error that names the column. Times are left out: a column of
times takes every text.
-/

namespace TableGateway

open Calendar (dateFormat instantFormats)

/-- Hours, minutes and seconds with two digits each. -/
def IsTimeOfDay (cs : List Char) : Prop :=
  ∃ hour minute second : Nat, hour ≤ 23 ∧ minute ≤ 59 ∧ second ≤ 59 ∧
    cs = Text.padded 2 hour ++ ':' :: Text.padded 2 minute ++ ':' :: Text.padded 2 second

/-- The text is a literal of the type, with no blanks around it. -/
def DataType.IsLiteral (cs : List Char) : DataType → Prop
  | .integer => ∃ n, Numeral.IsInteger cs n ∧ Numeral.minInt64 ≤ n ∧ n ≤ Numeral.maxInt64
  | .decimal | .float => ∃ x, Numeral.IsDouble cs x
  | .boolean => cs.map Char.toLower ∈ ["true", "1", "false", "0"].map String.toList
  | .datetime => ∃ format ∈ instantFormats, ∃ r : Calendar.Reading, format.Spells {} cs r ∧ r.IsReal
  | .date => ∃ d : Date, dateFormat.Spells {} cs (.ofDate d) ∧ d.isValid = true
  | .time => IsTimeOfDay cs
  | .uuid => ∃ u ds, Uuid.Denotes ds u ∧ Uuid.Spells ds cs
  | .text | .json | .other => True

namespace BoundValue

variable {type : DataType} {s : String}

theorem readBool?_isSome_iff :
    (readBool? s).isSome = true ↔ DataType.boolean.IsLiteral (Text.trim s.toList) := by
  have hWord (word : String) : Text.lowered (Text.trimmed s) = word ↔
      (Text.trim s.toList).map Char.toLower = word.toList := by
    rw [Text.lowered, Text.folded, Text.trimmed, String.toList_ofList, ← String.toList_inj,
      String.toList_ofList]
  rw [readBool?]
  simp only [hWord, DataType.IsLiteral, List.map_cons, List.map_nil, List.mem_cons,
    List.not_mem_nil, or_false]
  split
  · next hTrue => exact iff_of_true rfl (hTrue.elim .inl (.inr ∘ .inl))
  · next hTrue =>
    rw [← or_assoc, or_iff_right hTrue, Option.isSome_ite]

theorem readLiteral?_isSome_iff (hType : type ≠ .time) :
    (readLiteral? type s).isSome = true ↔ type.IsLiteral (Text.trim s.toList) := by
  rw [readLiteral?.eq_def]
  cases type with
  | integer =>
    simp only [Option.isSome_map, Option.isSome_iff_exists, Numeral.readInt64?_eq_some_iff]
    rfl
  | decimal | float =>
    simp only [Option.isSome_map, Option.isSome_iff_exists, Numeral.readDouble?_eq_some_iff]
    rfl
  | boolean =>
    simp only [Option.isSome_map, readBool?_isSome_iff]
  | datetime =>
    simp only [Option.isSome_map, Calendar.readInstant?_isSome_iff]
    rfl
  | date =>
    simp only [Option.isSome_ite, Calendar.isDate_eq_true_iff]
    rfl
  | uuid =>
    simp only [Option.isSome_map, Option.isSome_iff_exists, Uuid.ofChars?_eq_some_iff]
    rfl
  | time => exact absurd rfl hType
  | text | json | other => exact iff_of_true rfl trivial

end BoundValue

namespace Column

/-- The column takes the text as a literal. -/
def Accepts (column : Column) (s : String) : Prop :=
  column.type = .time ∨ column.type.IsLiteral (Text.trim s.toList)

/-- What the conversion of a text for a column may come to. -/
inductive Answers (column : Column) (s : String) : Except QueryError BoundValue → Prop
  | taken {v : BoundValue} (hAccepts : column.Accepts s) (hTyped : column.type.Prescribes v) :
      Answers column s (.ok v)
  | refused (h : ¬ column.Accepts s) :
      Answers column s (.error (.invalidLiteral column.name s (.literalOf column.type)))

variable {column : Column} {s : String}

theorem readLiteral?_isSome_iff :
    (BoundValue.readLiteral? column.type s).isSome = true ↔ column.Accepts s := by
  by_cases hTime : column.type = .time
  · rw [hTime]
    exact iff_of_true rfl (.inl hTime)
  · rw [BoundValue.readLiteral?_isSome_iff hTime, Accepts, or_iff_right hTime]

theorem answers_ofText (column : Column) (s : String) :
    column.Answers s (BoundValue.ofText column s) := by
  rw [BoundValue.ofText]
  cases hRead : BoundValue.readLiteral? column.type s with
  | some v =>
    exact .taken (readLiteral?_isSome_iff.mp (Option.isSome_of_eq_some hRead))
      (BoundValue.prescribes_of_readLiteral? hRead)
  | none =>
    refine .refused fun hAccepts => ?_
    rw [← readLiteral?_isSome_iff, hRead] at hAccepts
    cases hAccepts

/-- A JSON string is a literal as well. In a JSON column it stays a string of JSON. -/
theorem answers_ofJson (column : Column) (s : String) :
    column.Answers s (BoundValue.ofJson column (.text s)) := by
  rw [BoundValue.ofJson]
  split
  · next hJson =>
    have hAccepts : column.Accepts s := by
      rw [Accepts, hJson]
      exact .inr trivial
    exact .taken hAccepts (hJson ▸ .json _)
  · exact answers_ofText column s

theorem accepts_of_answers {outcome : Except QueryError BoundValue} {v : BoundValue}
    (h : column.Answers s outcome) (hOk : outcome = .ok v) : column.Accepts s := by
  cases h with
  | taken hAccepts => exact hAccepts
  | refused => cases hOk

end Column

end TableGateway
