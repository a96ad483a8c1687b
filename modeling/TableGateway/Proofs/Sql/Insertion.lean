import TableGateway.Proofs.Sql.Silence
import TableGateway.Sql.Mutation

/-!
# The placeholders of insertions

An insertion encloses its columns and then, in the same order, its placeholders. What hands the
inserted row back names columns only and stands before the placeholders or behind them.
-/

namespace TableGateway

open Draft

/-- A clause that only names things: no value, no predicate and no parentheses. -/
structure Draft.Naming (d : Dialect) (a : Draft) : Prop where
  legible : Legible d a
  silent : Silent a
  unenclosed : ∀ p ∈ a, p ≠ .mark .opening ∧ p ≠ .mark .closing

namespace Draft

variable {d : Dialect}

theorem Naming.spaced {drafts : List Draft} (h : ∀ a ∈ drafts, Naming d a) :
    Naming d (spaced drafts) where
  legible := .spaced fun a ha => (h a ha).legible
  silent := .spaced fun a ha => (h a ha).silent
  unenclosed := forall_mem_intercalate (by simp) fun a ha => (h a ha).unenclosed

theorem naming_keyword {k : Keyword} (h : k ≠ .WHERE) : Naming d [.keyword k] where
  legible := legible_singleton.mpr rfl
  silent := by simp [Part.isSilent, h]
  unenclosed := by simp

theorem naming_words {ks : List Keyword} (h : .WHERE ∉ ks) : Naming d (words ks) := by
  refine .spaced (List.forall_mem_map.mpr fun k hk => naming_keyword ?_)
  rintro rfl
  exact h hk

theorem Naming.brings {a : Draft} {isPredicate : Bool} (h : Naming d a) :
    Landmark.Brings isPredicate a.landmarks [] :=
  h.silent.brings

end Draft

namespace Dialect

variable {d : Dialect}

theorem naming_table (schema table : String) : Naming d (d.table schema table) where
  legible := legible_table schema table
  silent := silent_table schema table
  unenclosed := by
    rw [Dialect.table]
    split <;> simp [columnOf]

theorem naming_columns (cs : List Column) : Naming d (d.columns cs) where
  legible := legible_columns cs
  silent := silent_columns cs
  unenclosed := by
    refine forall_mem_intercalate (by simp) ?_
    simp only [List.forall_mem_map]
    intro c _
    cases hCast : d.castBack? c.type with
    | some cast =>
      obtain ⟨-, rfl⟩ := castBack?_eq_some_iff.mp hCast
      simp [readAs, hCast, labelled]
    | none => simp [readAs, hCast]

theorem naming_rowReturn {cs : List Column} {clause : Draft}
    (h : d.rowReturn cs = .suffix clause ∨ d.rowReturn cs = .output clause) : Naming d clause := by
  have hSuffix : Naming d (spaced [[.keyword .RETURNING], d.columns cs]) :=
    .spaced (by simp [naming_keyword, naming_columns])
  have hOutput : Naming d (spaced [[.keyword .OUTPUT],
      listed (cs.map fun c => [Part.keyword .INSERTED, .mark .dot, .name c.name])]) := by
    refine .spaced ?_
    simp only [List.forall_mem_cons, List.not_mem_nil, false_imp_iff, forall_const, and_true]
    refine ⟨naming_keyword (by decide), ⟨.listed ?_, .listed ?_, forall_mem_intercalate ?_ ?_⟩⟩ <;>
      simp [Part.isSilent, legible_cons_cons, Apart, Part.isSeparator, Part.isReadable]
  cases d with
  | postgres | sqlite =>
    rcases h with h | h <;> cases h
    exact hSuffix
  | sqlServer =>
    rcases h with h | h <;> cases h
    exact hOutput
  | mysql => rcases h with h | h <;> cases h

/-- The clauses before the values or the predicate, and those at the end. -/
def RowReturn.clauses : RowReturn → List Draft × List Draft
  | .suffix clause => ([], [clause])
  | .output clause => ([clause], [])
  | .selectBack => ([], [])

theorem naming_clauses (d : Dialect) (cs : List Column) :
    ∀ a ∈ (d.rowReturn cs).clauses.1 ++ (d.rowReturn cs).clauses.2, Naming d a := by
  cases hReturn : d.rowReturn cs with
  | suffix clause => simpa [RowReturn.clauses] using naming_rowReturn (.inl hReturn)
  | output clause => simpa [RowReturn.clauses] using naming_rowReturn (.inr hReturn)
  | selectBack => simp [RowReturn.clauses]

end Dialect

namespace Statement

variable {d : Dialect} {table : Draft} {output suffix : List Draft}

abbrev Entry := String × BoundValue × Option DataType

/-- The pieces of an insertion around its columns and around its placeholders. -/
def insertionPieces (table : Draft) (before output after suffix : List Draft) : List Draft :=
  words [.INSERT, .INTO] :: table :: (before ++ output ++ after ++ suffix)

theorem legible_insertion {before after : List Draft} (hTable : Naming d table)
    (hClauses : ∀ a ∈ output ++ suffix, Naming d a) (hValues : ∀ a ∈ before ++ after, Legible d a) :
    Legible d (spaced (insertionPieces table before output after suffix)) := by
  simp only [List.forall_mem_append] at hClauses hValues
  refine .spaced ?_
  simp only [insertionPieces, List.forall_mem_cons, List.forall_mem_append]
  exact ⟨legible_words _, hTable.legible, ⟨⟨hValues.1, fun a ha => (hClauses.1 a ha).legible⟩,
    hValues.2⟩, fun a ha => (hClauses.2 a ha).legible⟩

theorem values_insertion {before after : List Draft} (hTable : Naming d table)
    (hClauses : ∀ a ∈ output ++ suffix, Naming d a) (hBefore : ∀ a ∈ before, Silent a) :
    (spaced (insertionPieces table before output after suffix)).landmarks.filterMap
        Landmark.value? =
      (after.flatMap landmarks).filterMap Landmark.value? := by
  have hSilent {drafts : List Draft} (h : ∀ a ∈ drafts, Silent a) :
      (drafts.flatMap landmarks).filterMap Landmark.value? = [] := by
    rw [← landmarks_spaced]
    exact (Silent.spaced h).filterMap_value?
  have hWords : Silent (words [.INSERT, .INTO]) := silent_words (by decide)
  simp only [List.forall_mem_append] at hClauses
  simp only [insertionPieces, landmarks_spaced, List.flatMap_cons, List.flatMap_append,
    List.filterMap_append, hTable.silent.filterMap_value?, hSilent hBefore,
    hSilent fun a ha => (hClauses.1 a ha).silent, hSilent fun a ha => (hClauses.2 a ha).silent,
    hWords.filterMap_value?, List.nil_append,
    List.append_nil]

theorem targets_insertion (columns : List String) (output after suffix : List Draft)
    (hTable : Naming d table) :
    Token.targets ((spaced (insertionPieces table
        [enclosed (listed (columns.map fun c => [.name c]))] output after suffix)).tokens d {}) =
      columns := by
  have hFront : ∀ p ∈ words [.INSERT, .INTO] ++ .mark .space :: (table ++ [.mark .space]),
      p ≠ .mark .opening ∧ p ≠ .mark .closing := by
    simp only [List.forall_mem_append, List.forall_mem_cons]
    exact ⟨by simp [words, spaced], by simp, hTable.unenclosed, by simp⟩
  rw [insertionPieces]
  cases hMore : output ++ after ++ suffix with
  | nil =>
    have hTargets := targets_enclosed (d := d) columns {} [] hFront
    simpa [spaced, List.append_assoc, hMore] using hTargets
  | cons a more =>
    have hTargets :=
      targets_enclosed (d := d) columns {} (.mark .space :: spaced (a :: more)) hFront
    simpa [spaced, List.append_assoc, hMore] using hTargets

theorem binds_insertion (entries : List Entry) (hTable : Naming d table)
    (hClauses : ∀ a ∈ output ++ suffix, Naming d a) :
    Binds ⟨d, spaced (insertionPieces table [enclosed (listed (entries.map fun x => [.name x.1]))]
        output [[.keyword .VALUES],
          enclosed (listed (entries.map fun x => [.value x.1 x.2.1 x.2.2]))] suffix)⟩
      (entries.map fun x => (.assigned x.1, x.2.1)) := by
  have hNames : Legible d (listed (entries.map fun x => [.name x.1])) :=
    .listed (List.forall_mem_map.mpr fun _ _ => legible_singleton.mpr rfl)
  have hValues : Legible d (listed (entries.map fun x => [.value x.1 x.2.1 x.2.2])) :=
    .listed (List.forall_mem_map.mpr fun _ _ => legible_singleton.mpr rfl)
  have hSilent : Silent (listed (entries.map fun x => [.name x.1])) :=
    .listed (List.forall_mem_map.mpr fun _ _ => by simp [Part.isSilent])
  refine .of_targets (legible_insertion hTable hClauses ?_) rfl ?_ ?_
  · simp [Part.isReadable, hNames.enclosed, hValues.enclosed]
  · have hTargets := targets_insertion (d := d) (entries.map Prod.fst) output
      [[.keyword .VALUES], enclosed (listed (entries.map fun x => [.value x.1 x.2.1 x.2.2]))]
      suffix hTable
    rw [List.map_map] at hTargets
    refine (congrArg (List.map Site.assigned) hTargets).trans ?_
    rw [List.map_map, List.map_map]
    rfl
  · rw [Landmark.map_snd_sites, values_insertion hTable hClauses (by simp [hSilent.enclosed])]
    have hKeyword : Draft.landmarks [.keyword .VALUES] = [] := rfl
    simp only [List.flatMap_cons, List.flatMap_nil, hKeyword, landmarks_enclosed, landmarks_listed,
      List.nil_append, List.append_nil, List.flatMap_map, List.filterMap_flatMap, List.map_map]
    exact List.flatMap_pure_eq_map (fun x : Entry => x.2.1) entries

/-- Without assignments there is nothing to bind. -/
theorem binds_defaults {before after : List Draft} (hTable : Naming d table)
    (hClauses : ∀ a ∈ output ++ suffix, Naming d a)
    (hPieces : (before = [] ∧ after = [words [.DEFAULT, .VALUES]]) ∨
      (before = [enclosed []] ∧ after = [spaced [[.keyword .VALUES], enclosed []]])) :
    Binds ⟨d, spaced (insertionPieces table before output after suffix)⟩ [] := by
  have hDefault : Naming d (words [.DEFAULT, .VALUES]) := naming_words (by decide)
  have hEnclosed : Legible d (enclosed []) ∧ Silent (enclosed []) :=
    ⟨legible_nil.enclosed, silent_nil.enclosed⟩
  have hValues : Legible d (spaced [[.keyword .VALUES], enclosed []]) ∧
      Silent (spaced [[.keyword .VALUES], enclosed []]) :=
    ⟨.spaced (by simp [hEnclosed, Part.isReadable]), .spaced (by simp [hEnclosed, Part.isSilent])⟩
  rcases hPieces with ⟨rfl, rfl⟩ | ⟨rfl, rfl⟩
  · refine .of_targets (legible_insertion hTable hClauses (by simp [hDefault.legible])) rfl ?_ ?_
    · have hNaming : Naming d
          (spaced (insertionPieces table [] output [words [.DEFAULT, .VALUES]] suffix)) := by
        refine .spaced ?_
        simp only [List.forall_mem_append] at hClauses
        simp only [insertionPieces, List.forall_mem_cons, List.forall_mem_append]
        exact ⟨naming_words (by decide), hTable, ⟨⟨by simp, hClauses.1⟩, hDefault, by simp⟩,
          hClauses.2⟩
      rw [targets_of_not_mem (parenthesis_not_mem {} hNaming.unenclosed).1]
      rfl
    · rw [Landmark.map_snd_sites, values_insertion hTable hClauses (by simp)]
      rfl
  · refine .of_targets (legible_insertion hTable hClauses (by simp [hEnclosed, hValues])) rfl ?_ ?_
    · exact congrArg (List.map Site.assigned) (targets_insertion [] output _ suffix hTable)
    · rw [Landmark.map_snd_sites, values_insertion hTable hClauses (by simp [hEnclosed])]
      rfl

end Statement

def Assignment.meant (a : Assignment) : Site × BoundValue := (.assigned a.column.name, a.value)

namespace Mutation

variable {d : Dialect} {e : Entity}

theorem insertion_statement (d : Dialect) (e : Entity) (assignments : List Assignment) :
    (insertion d e assignments).statement =
      ⟨d, spaced (Statement.insertionPieces (e.table d) (insertedValues d assignments).1
        (d.rowReturn e.columns).clauses.1 (insertedValues d assignments).2
        (d.rowReturn e.columns).clauses.2)⟩ := by
  rw [insertion]
  cases d.rowReturn e.columns with
  | suffix | output | selectBack => simp [Statement.insertionPieces, Dialect.RowReturn.clauses]

theorem binds_insertion (d : Dialect) (e : Entity) (assignments : List Assignment) :
    (insertion d e assignments).statement.Binds (assignments.map Assignment.meant) := by
  have hClauses := Dialect.naming_clauses d e.columns
  have hTable : Naming d (e.table d) := Dialect.naming_table e.schema e.name
  rw [insertion_statement]
  cases assignments with
  | nil =>
    refine Statement.binds_defaults hTable hClauses ?_
    cases d with
    | mysql => exact .inr ⟨rfl, rfl⟩
    | postgres | sqlite | sqlServer => exact .inl ⟨rfl, rfl⟩
  | cons a as =>
    have hBinds := Statement.binds_insertion
      ((a :: as).map fun a => (a.column.name, a.value, some a.column.type)) hTable hClauses
    rw [List.map_map, List.map_map, List.map_map] at hBinds
    exact hBinds

end Mutation

end TableGateway
