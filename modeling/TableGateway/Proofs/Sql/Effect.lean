import Mathlib.Logic.Function.Basic
import TableGateway.Proofs.Sql.Binding

/-!
# What updates do to rows

An update names its table between its first word and the assignments. It sets the assigned columns
of the rows in which the columns of the predicate are equal to their parameters, as the engine
compares them. All of this is read from the text of the statement and its parameters.
-/

namespace TableGateway

open Draft

/-- The cells of a row, by the names of their columns. -/
abbrev Row := String → BoundValue

namespace Site

/-- Whether a row meets what a placeholder is compared for. -/
def isMet (same : BoundValue → BoundValue → Bool) (row : Row) : Site × BoundValue → Bool
  | (.assigned _, _) => true
  | (.compared column, v) => same (row column) v

def write (row : Row) : Site × BoundValue → Row
  | (.assigned column, v) => Function.update row column v
  | (.compared _, _) => row

end Site

/-- The names of the table that a statement updates. -/
def Token.updated? : List Token → Option (List String)
  | .word w :: ts =>
    if w = "UPDATE".toList then
      some ((ts.takeWhile (· ≠ .word "SET".toList)).filterMap Token.name?)
    else none
  | _ => none

def Entity.tableNames (e : Entity) (d : Dialect) : List String := (e.table d).filterMap Part.name?

namespace Statement

/-- What the placeholders stand for, each with the value that is bound to it. -/
def bound (s : Statement) : List (Site × BoundValue) :=
  (Token.sites s.tokens).zip s.parameters.values

/-- The rows of the table `target` after the statement. -/
def run (same : BoundValue → BoundValue → Bool) (target : List String) (s : Statement)
    (rows : List Row) : List Row :=
  if Token.updated? s.tokens = some target then
    rows.map fun row =>
      if s.bound.all (Site.isMet same row) then s.bound.foldl Site.write row else row
  else rows

theorem Binds.bound_eq {s : Statement} {meant : List (Site × BoundValue)} (h : s.Binds meant) :
    s.bound = meant := by
  rw [bound, h.sites, h.values, List.zip_map']
  exact List.map_id meant

end Statement

namespace Dialect

theorem tokens_table (d : Dialect) (schema table : String) (ps : Parameters) :
    ∀ t ∈ (d.table schema table).tokens d ps, ∀ w, t ≠ .word w := by
  rw [Dialect.table]
  split <;> simp [columnOf, Draft.tokens, Part.tokens, Mark.text]

end Dialect

namespace Mutation

variable {d : Dialect} {e : Entity}

theorem updated?_rowUpdate (column : Column) (key : BoundValue) (assignments : List Assignment) :
    Token.updated? (rowUpdate d e column key assignments).statement.tokens =
      some (e.tableNames d) := by
  have hLegible := legible_rowUpdate d e column key assignments
  rw [rowUpdate_statement] at hLegible ⊢
  rw [Statement.tokens_eq hLegible]
  obtain ⟨rest, hRest⟩ : ∃ rest, spaced ([[.keyword .UPDATE], e.table d, [.keyword .SET],
      listed (assignments.map Assignment.equation)] ++ (d.rowReturn e.columns).clauses.1 ++
        [[.keyword .WHERE], equals [.name column.name] (keyPlaceholder column key)] ++
          (d.rowReturn e.columns).clauses.2) =
      [.keyword .UPDATE, .mark .space] ++
        (e.table d ++ (.mark .space :: .keyword .SET :: rest)) := by
    simp [spaced, List.intercalate_cons_cons]
  obtain ⟨ps, behind, hTokens⟩ : ∃ ps behind,
      tokens d {} ([.keyword .UPDATE, .mark .space] ++
        (e.table d ++ (.mark .space :: .keyword .SET :: rest))) =
      .word "UPDATE".toList :: ((e.table d).tokens d ps ++ .word "SET".toList :: behind) := by
    rw [tokens_append, tokens_append]
    exact ⟨_, _, rfl⟩
  have hTable : ∀ t ∈ (e.table d).tokens d ps, decide (t ≠ .word "SET".toList) = true := by
    intro t ht
    exact decide_eq_true (Dialect.tokens_table d e.schema e.name ps t ht _)
  rw [hRest, hTokens, Token.updated?, if_pos rfl,
    Text.takeWhile_append_of_stops hTable (by rintro t ⟨⟩; rfl),
    filterMap_tokens (Part.name?_tokens d)]
  rfl

theorem run_rowUpdate (same : BoundValue → BoundValue → Bool) (column : Column) (key : BoundValue)
    (assignments : List Assignment) (rows : List Row) :
    (rowUpdate d e column key assignments).statement.run same (e.tableNames d) rows =
      rows.map fun row =>
        if same (row column.name) key then
          assignments.foldl (fun row a => Function.update row a.column.name a.value) row
        else row := by
  rw [Statement.run, if_pos (updated?_rowUpdate column key assignments),
    (binds_rowUpdate d e column key assignments).bound_eq]
  apply List.map_congr_left
  intro row _
  have hMet : (assignments.map Assignment.meant ++ [(Site.compared column.name, key)]).all
      (Site.isMet same row) = same (row column.name) key := by
    simp [Site.isMet, Assignment.meant]
  rw [hMet, List.foldl_append, List.foldl_map]
  rfl

end Mutation

end TableGateway
