import TableGateway.Proofs.Sql.Quotation

/-!
# The end of a selection

What the text of a page says behind its fields: where its rows come from, which it shares with the
text that counts them, the keys that they are sorted by, and the page that is taken of them.
-/

namespace TableGateway

namespace SortKey

def tokens (k : SortKey) : List Token :=
  [.name k.aliasName.toList, .mark '.', .name k.column.toList,
    .word (Dialect.direction k.direction).text.toList]

def orderTokens (keys : List SortKey) : List Token :=
  .word "ORDER".toList :: .word "BY".toList :: [.mark ','].intercalate (keys.map tokens)

end SortKey

/-- The two ways in which engines are asked for a page. -/
inductive Paging.Spelled (p : Paging) : List Token → Prop
  | limit : Spelled p
      [.word "LIMIT".toList, .word (Text.decimal p.limit.toNat),
        .word "OFFSET".toList, .word (Text.decimal p.offset.toNat)]
  | fetch : Spelled p
      [.word "OFFSET".toList, .word (Text.decimal p.offset.toNat), .word "ROWS".toList,
        .word "FETCH".toList, .word "NEXT".toList, .word (Text.decimal p.limit.toNat),
        .word "ROWS".toList, .word "ONLY".toList]

/-- One statement sorts what the other counts by these keys, and takes this page of it. -/
def ListStatements.PagesBy (s : ListStatements) (keys : List SortKey) (p : Paging) : Prop :=
  ∃ fields source page,
    s.select.tokens =
      .word "SELECT".toList :: fields ++ source ++ SortKey.orderTokens keys ++ page ∧
    s.count.tokens =
      [.word "SELECT".toList, .word "COUNT".toList, .mark '(', .mark '*', .mark ')'] ++ source ∧
    source.head? = some (.word "FROM".toList) ∧ p.Spelled page

variable {d : Dialect}

namespace Draft

theorem Silent.bind_eq {a : Draft} (h : Silent a) (ps : Parameters) : bind ps a = ps := by
  induction a with
  | nil => rfl
  | cons p a ih =>
    rw [silent_cons] at h
    cases p with
    | value => cases h.1
    | keyword | mark | relation | name | number => exact ih h.2

/-- The blanks between drafts are no tokens. -/
theorem tokens_spaced (d : Dialect) (ps : Parameters) (drafts : List Draft) :
    (spaced drafts).tokens d ps = tokens d ps drafts.flatten := by
  induction drafts generalizing ps with
  | nil => rfl
  | cons a drafts ih =>
    rw [List.flatten_cons, tokens_append, ← ih]
    cases drafts with
    | nil =>
      rw [spaced, List.intercalate_singleton]
      exact (List.append_nil _).symm
    | cons b drafts =>
      rw [spaced, List.intercalate_cons_cons, tokens_append, tokens_append, bind_append,
        List.append_assoc]
      rfl

theorem tokens_listed (d : Dialect) (ps : Parameters) {drafts : List Draft}
    (h : ∀ a ∈ drafts, Silent a) :
    (listed drafts).tokens d ps = [.mark ','].intercalate (drafts.map (tokens d ps)) := by
  induction drafts with
  | nil => rfl
  | cons a drafts ih =>
    rw [List.forall_mem_cons] at h
    cases drafts with
    | nil =>
      rw [listed, List.map_singleton, List.intercalate_singleton, List.intercalate_singleton]
    | cons b drafts =>
      rw [List.map_cons, List.map_cons, List.intercalate_cons_cons, ← List.map_cons, ← ih h.2,
        listed, List.intercalate_cons_cons, tokens_append, tokens_append, bind_append,
        h.1.bind_eq]
      rfl

end Draft

open Draft

namespace Dialect

theorem tokens_sortKeys (d : Dialect) (ps : Parameters) (keys : List SortKey) :
    (sortKeys keys).tokens d ps = [.mark ','].intercalate (keys.map SortKey.tokens) := by
  rw [sortKeys, tokens_listed d ps (List.forall_mem_map.mpr fun k _ => silent_sortKey k),
    List.map_map]
  rfl

theorem spelled_paging (d : Dialect) (ps : Parameters) {p : Paging} (hLimit : 0 ≤ p.limit)
    (hOffset : 0 ≤ p.offset) : p.Spelled ((d.paging p true).tokens d ps) := by
  have hNumber {n : Int} (h : 0 ≤ n) :
      (Part.number n).tokens d ps = [.word (Text.decimal n.toNat)] := by
    obtain ⟨m, rfl⟩ := Int.eq_ofNat_of_zero_le h
    rw [Part.tokens, if_neg (Int.not_lt.mpr h)]
    rfl
  have hFetch : (spaced [[.keyword .OFFSET], [.number p.offset], words [.ROWS, .FETCH, .NEXT],
      [.number p.limit], words [.ROWS, .ONLY]]).tokens d ps =
      [.word "OFFSET".toList, .word (Text.decimal p.offset.toNat), .word "ROWS".toList,
        .word "FETCH".toList, .word "NEXT".toList, .word (Text.decimal p.limit.toNat),
        .word "ROWS".toList, .word "ONLY".toList] := by
    rw [tokens_spaced]
    change .word _ :: ((Part.number p.offset).tokens d ps ++ (.word _ :: .word _ :: .word _ ::
      ((Part.number p.limit).tokens d ps ++ [.word _, .word _]))) = _
    rw [hNumber hOffset, hNumber hLimit]
    rfl
  have hLimited : (spaced [[.keyword .LIMIT], [.number p.limit], [.keyword .OFFSET],
      [.number p.offset]]).tokens d ps =
      [.word "LIMIT".toList, .word (Text.decimal p.limit.toNat),
        .word "OFFSET".toList, .word (Text.decimal p.offset.toNat)] := by
    rw [tokens_spaced]
    change .word _ :: ((Part.number p.limit).tokens d ps ++ (.word _ ::
      ((Part.number p.offset).tokens d ps ++ []))) = _
    rw [hNumber hLimit, hNumber hOffset]
    rfl
  rw [paging]
  split
  · rw [if_pos rfl, hFetch]
    exact .fetch
  · rw [hLimited]
    exact .limit

end Dialect

namespace Statement

theorem tokens_orderClause (d : Dialect) (ps : Parameters) {keys : List SortKey} (h : keys ≠ [])
    (page : Draft) :
    Draft.tokens d ps (orderClause keys ++ [page]).flatten =
      SortKey.orderTokens keys ++ page.tokens d ps := by
  have hClause : orderClause keys = [spaced [words [.ORDER, .BY], Dialect.sortKeys keys]] := by
    rw [orderClause, List.isEmpty_eq_false_iff.mpr h]
    rfl
  have hSilent := (orderClause_forall (d := d) keys _ (hClause ▸ List.mem_singleton_self _)).2
  have hTokens : (spaced [words [.ORDER, .BY], Dialect.sortKeys keys]).tokens d ps =
      SortKey.orderTokens keys := by
    rw [tokens_spaced, List.flatten_cons, Draft.tokens_append, List.flatten_singleton,
      Dialect.tokens_sortKeys]
    rfl
  rw [hClause, List.flatten_append, List.flatten_singleton, List.flatten_singleton,
    Draft.tokens_append, hSilent.bind_eq, hTokens]

theorem pagesBy_list (d : Dialect) {e : Entity} {q : QueryPlan} (hKeys : e.ordering q.sort ≠ [])
    (hLimit : 0 ≤ q.paging.limit) (hOffset : 0 ≤ q.paging.offset) :
    (list d e q).PagesBy (e.ordering q.sort) q.paging := by
  let source := ([[.keyword .FROM], e.source d q.joins] ++ predicate d q.filter).flatten
  have hFields : bind {} [[.keyword .SELECT], e.projection d q.fields].flatten = {} :=
    Silent.bind_eq (by simp [e.silent_projection d q.fields, Part.isSilent]) {}
  have hOrdered : (!(e.ordering q.sort).isEmpty) = true := by simpa using hKeys
  refine ⟨(e.projection d q.fields).tokens d {}, Draft.tokens d {} source, _, ?_, ?_, rfl,
    d.spelled_paging (bind {} source) hLimit hOffset⟩
  · rw [tokens_eq (legible_list d e q).1]
    change Draft.tokens d {} (spaced ([[.keyword .SELECT], e.projection d q.fields] ++
      ([[.keyword .FROM], e.source d q.joins] ++ predicate d q.filter) ++
        (orderClause (e.ordering q.sort) ++ [d.paging q.paging !(e.ordering q.sort).isEmpty]))) = _
    rw [tokens_spaced, List.flatten_append, List.flatten_append, Draft.tokens_append,
      Draft.tokens_append, hFields, bind_append, hFields, hOrdered, tokens_orderClause _ _ hKeys]
    simp only [List.flatten_cons, List.flatten_nil, List.append_nil, List.cons_append,
      List.append_assoc]
    rfl
  · rw [tokens_eq (legible_list d e q).2]
    change Draft.tokens d {} (spaced ([[.keyword .SELECT],
      .keyword .COUNT :: enclosed [.mark .star]] ++
        ([[.keyword .FROM], e.source d q.joins] ++ predicate d q.filter))) = _
    rw [tokens_spaced]
    rfl

end Statement

end TableGateway
