import TableGateway.Proofs.Sql.Legible
import TableGateway.Sql.Selection

/-!
# What placeholders stand for

An insertion lists its columns and then its placeholders. Everywhere else a placeholder belongs to
the name in front of it, which it is assigned to, or compared with once the predicate has begun.
A draft has its values at the same places as its text has the placeholders.
-/

namespace TableGateway

inductive Site
  | assigned (column : String)
  | compared (column : String)
deriving DecidableEq

/-- What decides on sites. A text has placeholders where a draft has values. -/
inductive Landmark (α : Type)
  | name (s : String)
  | predicate
  | value (a : α)

namespace Landmark

variable {α β : Type}

def map (f : α → β) : Landmark α → Landmark β
  | .name s => .name s
  | .predicate => .predicate
  | .value a => .value (f a)

def site (isPredicate : Bool) (column : String) : Site :=
  if isPredicate then .compared column else .assigned column

/-- The values with their sites, from a place that is in the predicate or not, behind a column. -/
def sites (isPredicate : Bool) (column : String) : List (Landmark α) → List (Site × α)
  | [] => []
  | .name s :: ls => sites isPredicate s ls
  | .predicate :: ls => sites true column ls
  | .value a :: ls => (site isPredicate column, a) :: sites isPredicate column ls

theorem sites_map (f : α → β) (isPredicate : Bool) (column : String) (ls : List (Landmark α)) :
    sites isPredicate column (ls.map (map f)) =
      (sites isPredicate column ls).map fun s => (s.1, f s.2) := by
  induction ls generalizing isPredicate column with
  | nil => rfl
  | cons l ls ih => cases l <;> simp [map, sites, ih]

def value? : Landmark α → Option α
  | .value a => some a
  | _ => none

theorem map_snd_sites (isPredicate : Bool) (column : String) (ls : List (Landmark α)) :
    (sites isPredicate column ls).map Prod.snd = ls.filterMap value? := by
  induction ls generalizing isPredicate column with
  | nil => rfl
  | cons l ls ih => cases l <;> simp [sites, List.filterMap_cons, value?, ih]

end Landmark

namespace Token

def landmark? : Token → Option (Landmark Unit)
  | .name s => some (.name (String.ofList s))
  | .word w => if w = "WHERE".toList then some .predicate else none
  | .placeholder _ => some (.value ())
  | _ => none

def name? : Token → Option String
  | .name s => some (String.ofList s)
  | _ => none

def targets (ts : List Token) : List String :=
  ((ts.dropWhile (· ≠ .mark '(')).takeWhile (· ≠ .mark ')')).filterMap name?

/-- What the placeholders of a statement stand for, from left to right. -/
def sites (ts : List Token) : List Site :=
  if ts.head? = some (.word "INSERT".toList) then (targets ts).map .assigned
  else (Landmark.sites false "" (ts.filterMap landmark?)).map Prod.fst

end Token

namespace Dialect

/-- How placeholders refer to the parameters, in their order. -/
def references (d : Dialect) (ps : Parameters) : List (List Char) :=
  ps.names.mapIdx fun i name => d.reference (i + 1) name

theorem references_push (d : Dialect) (ps : Parameters) (hint : String) (v : BoundValue) :
    d.references (ps.push hint v) =
      d.references ps ++ [d.reference (ps.size + 1) (ps.freshName hint)] := by
  rw [references, Parameters.names_push, List.mapIdx_concat]
  simp [references, Parameters.names, Parameters.size]

end Dialect

namespace Statement

def tokens (s : Statement) : List Token := s.dialect.tokens s.text.toList

/-- The placeholders of the text denote the parameters one by one, and each has the value that is
meant where it stands. -/
structure Binds (s : Statement) (meant : List (Site × BoundValue)) : Prop where
  references : s.tokens.filterMap Token.reference? = s.dialect.references s.parameters
  distinct : s.parameters.Distinct
  sites : Token.sites s.tokens = meant.map Prod.fst
  values : s.parameters.values = meant.map Prod.snd

end Statement

namespace Part

def landmark? : Part → Option (Landmark BoundValue)
  | .name s => some (.name s)
  | .keyword .WHERE => some .predicate
  | .value _ v _ => some (.value v)
  | _ => none

theorem reference?_castTokens (d : Dialect) (type : Option DataType) :
    (castTokens d type).filterMap Token.reference? = [] := by
  cases type with
  | none => cases d <;> rfl
  | some type => cases d <;> cases type <;> rfl

theorem landmark?_castTokens (d : Dialect) (type : Option DataType) :
    (castTokens d type).filterMap Token.landmark? = [] := by
  cases type with
  | none => cases d <;> rfl
  | some type => cases d <;> cases type <;> rfl

theorem landmark?_decimal (n : Nat) : Token.landmark? (.word (Text.decimal n)) = none := by
  rw [Token.landmark?, if_neg]
  exact Text.decimal_ne_cons (by decide)

theorem reference?_tokens (d : Dialect) (ps : Parameters) (p : Part) :
    d.references ps ++ (p.tokens d ps).filterMap Token.reference? = d.references (p.bind ps) := by
  cases p with
  | value hint v type =>
    rw [tokens, bind, Dialect.references_push]
    exact congrArg (d.references ps ++ _ :: ·) (reference?_castTokens d type)
  | mark m => cases m <;> simp [tokens, Mark.text, Token.reference?, bind]
  | relation op =>
    cases op <;> simp [tokens, relationText, Comparison.symbol?, Token.reference?, bind]
  | number n =>
    rw [tokens]
    split <;> simp [Token.reference?, bind]
  | keyword | name => simp [tokens, Token.reference?, bind]

/-- What is picked from a number is picked from its digits. -/
theorem filterMap_number {β : Type} {f : Token → Option β} {n : Int} {picked : Option β}
    (hMinus : f (.mark '-') = none) (hDecimal : f (.word (Text.decimal n.natAbs)) = picked)
    (d : Dialect) (ps : Parameters) :
    ((number n).tokens d ps).filterMap f = picked.toList := by
  have hDigits : [Token.word (Text.decimal n.natAbs)].filterMap f = picked.toList := by
    rw [List.filterMap_cons, hDecimal]
    cases picked <;> rfl
  rw [tokens]
  split
  · rw [List.filterMap_cons_none hMinus, hDigits]
  · exact hDigits

theorem landmark?_tokens (d : Dialect) (ps : Parameters) (p : Part) :
    (p.tokens d ps).filterMap Token.landmark? =
      (p.landmark?.map (Landmark.map fun _ => ())).toList := by
  cases p with
  | value hint v type => exact congrArg (.value () :: ·) (landmark?_castTokens d type)
  | mark m => cases m <;> rfl
  | relation op => cases op <;> rfl
  | number n => exact filterMap_number rfl (landmark?_decimal _) d ps
  | keyword k => cases k <;> rfl
  | name s => simp [tokens, Token.landmark?, landmark?, Landmark.map]

theorem mark_not_mem_castTokens (d : Dialect) (type : Option DataType) (c : Char) (h : c ≠ ':') :
    .mark c ∉ castTokens d type := by
  cases type with
  | none => cases d <;> simp [castTokens]
  | some type => cases d <;> cases type <;> simp [castTokens, castWords, Dialect.castName?, h]

theorem eq_of_parenthesis_mem {d : Dialect} {ps : Parameters} {p : Part} :
    (.mark '(' ∈ p.tokens d ps → p = .mark .opening) ∧
      (.mark ')' ∈ p.tokens d ps → p = .mark .closing) := by
  cases p with
  | keyword | name => simp [tokens]
  | mark m => cases m <;> simp [tokens, Mark.text]
  | relation op => cases op <;> simp [tokens, relationText, Comparison.symbol?]
  | number n =>
    rw [tokens]
    split <;> simp
  | value hint v type => simp [tokens, mark_not_mem_castTokens d type]

def name? : Part → Option String
  | .name s => some s
  | _ => none

theorem name?_tokens (d : Dialect) (ps : Parameters) (p : Part) :
    (p.tokens d ps).filterMap Token.name? = p.name?.toList := by
  cases p with
  | value hint v type =>
    cases type with
    | none => cases d <;> rfl
    | some type => cases d <;> cases type <;> rfl
  | mark m => cases m <;> rfl
  | relation op => cases op <;> rfl
  | number n => exact filterMap_number rfl rfl d ps
  | keyword k => rfl
  | name s => simp [tokens, Token.name?, name?]

end Part

namespace Draft

variable {d : Dialect} {a b : Draft}

def landmarks (a : Draft) : List (Landmark BoundValue) := a.filterMap Part.landmark?

theorem reference?_tokens (d : Dialect) (ps : Parameters) (a : Draft) :
    d.references ps ++ (a.tokens d ps).filterMap Token.reference? = d.references (bind ps a) := by
  induction a generalizing ps with
  | nil => simp [tokens, bind]
  | cons p rest ih =>
    rw [tokens, List.filterMap_append, ← List.append_assoc, Part.reference?_tokens, ih]
    rfl

/-- What is picked from the tokens can be picked from the parts. -/
theorem filterMap_tokens {β : Type} {f : Token → Option β} {g : Part → Option β}
    (h : ∀ ps p, (Part.tokens d ps p).filterMap f = (g p).toList) (ps : Parameters) (a : Draft) :
    (a.tokens d ps).filterMap f = a.filterMap g := by
  induction a generalizing ps with
  | nil => rfl
  | cons p rest ih =>
    rw [tokens, List.filterMap_append, h, ih]
    cases hPart : g p with
    | none => rw [List.filterMap_cons_none hPart, Option.toList_none, List.nil_append]
    | some b => rw [List.filterMap_cons_some hPart, Option.toList_some, List.singleton_append]

theorem landmark?_tokens (d : Dialect) (ps : Parameters) (a : Draft) :
    (a.tokens d ps).filterMap Token.landmark? = a.landmarks.map (Landmark.map fun _ => ()) := by
  rw [filterMap_tokens (Part.landmark?_tokens d), landmarks, List.map_filterMap]

theorem filterMap_intercalate {β : Type} {f : Part → Option β} {separator : Draft}
    (h : separator.filterMap f = []) (drafts : List Draft) :
    (separator.intercalate drafts).filterMap f = drafts.flatMap (List.filterMap f) := by
  induction drafts with
  | nil => rfl
  | cons a rest ih =>
    cases rest with
    | nil => simp
    | cons b rest => simp [List.intercalate_cons_cons, List.filterMap_append, h, ih]

/-- The values of a draft with the names that they ask for. -/
def entries (a : Draft) : List (String × BoundValue) :=
  a.filterMap fun
    | .value hint v _ => some (hint, v)
    | _ => none

theorem bind_eq_pushAll (ps : Parameters) (a : Draft) : bind ps a = ps.pushAll a.entries := by
  induction a generalizing ps with
  | nil => rfl
  | cons p rest ih =>
    cases p with
    | value hint v type => exact ih (ps.push hint v)
    | keyword | mark | relation | name | number => exact ih ps

theorem distinct_bind {ps : Parameters} (h : ps.Distinct) (a : Draft) : (bind ps a).Distinct := by
  rw [bind_eq_pushAll]
  exact h.pushAll a.entries

/-- The parameters of a draft are its values in their order, wherever they stand. -/
theorem values_bind (isPredicate : Bool) (column : String) (ps : Parameters) (a : Draft) :
    (bind ps a).values =
      ps.values ++ (Landmark.sites isPredicate column a.landmarks).map Prod.snd := by
  rw [Landmark.map_snd_sites]
  induction a generalizing ps with
  | nil => simp [bind, landmarks]
  | cons p rest ih =>
    change (bind (p.bind ps) rest).values = _
    rw [ih]
    cases p with
    | value hint v type => simp [Part.bind, landmarks, Part.landmark?, Landmark.value?]
    | keyword k => cases k <;> rfl
    | mark | relation | name | number => rfl

theorem parenthesis_not_mem (ps : Parameters)
    (h : ∀ p ∈ a, p ≠ .mark .opening ∧ p ≠ .mark .closing) :
    .mark '(' ∉ a.tokens d ps ∧ .mark ')' ∉ a.tokens d ps := by
  induction a generalizing ps with
  | nil => simp [tokens]
  | cons p rest ih =>
    rw [List.forall_mem_cons] at h
    obtain ⟨hOpening, hClosing⟩ := ih (p.bind ps) h.2
    simp only [tokens, List.mem_append, not_or]
    exact ⟨⟨fun hMem => h.1.1 (Part.eq_of_parenthesis_mem.1 hMem), hOpening⟩,
      ⟨fun hMem => h.1.2 (Part.eq_of_parenthesis_mem.2 hMem), hClosing⟩⟩

theorem targets_of_not_mem {ts : List Token} (h : .mark '(' ∉ ts) : Token.targets ts = [] := by
  rw [Token.targets, List.dropWhile_eq_nil_iff.mpr]
  · rfl
  · intro t ht
    have hNe : t ≠ .mark '(' := fun hEq => h (hEq ▸ ht)
    simpa using hNe

theorem targets_enclosed (columns : List String) (ps : Parameters) (rest : Draft)
    (h : ∀ p ∈ a, p ≠ .mark .opening ∧ p ≠ .mark .closing) :
    Token.targets ((a ++ enclosed (listed (columns.map fun c => [.name c])) ++ rest).tokens d ps) =
      columns := by
  have hNames : ∀ p ∈ listed (columns.map fun c => [Part.name c]),
      p ≠ .mark .opening ∧ p ≠ .mark .closing :=
    forall_mem_intercalate (by simp) (by simp)
  have hFront : ∀ t ∈ a.tokens d ps, decide (t ≠ .mark '(') = true := by
    intro t ht
    have hNe : t ≠ .mark '(' := fun hEq => (parenthesis_not_mem ps h).1 (hEq ▸ ht)
    simpa using hNe
  have hList : ∀ t ∈ .mark '(' :: (listed (columns.map fun c => [.name c])).tokens d (bind ps a),
      decide (t ≠ .mark ')') = true := by
    intro t ht
    have hNe : t ≠ .mark ')' := by
      rintro rfl
      exact (parenthesis_not_mem (bind ps a) hNames).2 (by simpa using ht)
    simpa using hNe
  rw [tokens_append, tokens_append, tokens_enclosed, Token.targets, List.append_assoc,
    Text.dropWhile_append_of_stops hFront (by rintro t ⟨⟩; rfl), List.append_assoc,
    Text.takeWhile_append_of_stops hList (by rintro t ⟨⟩; rfl), List.filterMap_cons_none rfl,
    filterMap_tokens (Part.name?_tokens d), listed, filterMap_intercalate rfl]
  rw [List.flatMap_map]
  exact List.flatMap_singleton' columns

end Draft

namespace Statement

variable {s : Statement} {meant : List (Site × BoundValue)}

theorem tokens_eq (h : Draft.Legible s.dialect s.draft) :
    s.tokens = s.draft.tokens s.dialect {} := by
  rw [tokens, text, Draft.toText, String.toList_ofList, Draft.tokens_write {} h]

theorem Binds.of_sites (h : Draft.Legible s.dialect s.draft)
    (hSites : Token.sites (s.draft.tokens s.dialect {}) = meant.map Prod.fst)
    (hValues : (Landmark.sites false "" s.draft.landmarks).map Prod.snd = meant.map Prod.snd) :
    s.Binds meant where
  references := by
    rw [tokens_eq h]
    exact Draft.reference?_tokens s.dialect {} s.draft
  distinct := Draft.distinct_bind Parameters.distinct_nil s.draft
  sites := by rw [tokens_eq h, hSites]
  values := by
    rw [parameters, Draft.parameters, Draft.values_bind false "", hValues]
    rfl

/-- Outside of insertions the landmarks of the draft decide. -/
theorem Binds.of_landmarks {k : Keyword} (h : Draft.Legible s.dialect s.draft)
    (hHead : s.draft.head? = some (.keyword k)) (hInsert : k ≠ .INSERT)
    (hSites : Landmark.sites false "" s.draft.landmarks = meant) : s.Binds meant := by
  refine .of_sites h ?_ (by rw [hSites])
  obtain ⟨rest, hDraft⟩ := List.head?_eq_some_iff.mp hHead
  have hWord : (s.draft.tokens s.dialect {}).head? ≠ some (.word "INSERT".toList) := by
    rw [hDraft]
    cases k with
    | INSERT => exact absurd rfl hInsert
    | _ => simp [Draft.tokens, Part.tokens, Keyword.text]
  rw [Token.sites, if_neg hWord, Draft.landmark?_tokens, Landmark.sites_map, hSites, List.map_map]
  rfl

/-- In an insertion the first list decides. -/
theorem Binds.of_targets (h : Draft.Legible s.dialect s.draft)
    (hHead : s.draft.head? = some (.keyword .INSERT))
    (hTargets : (Token.targets (s.draft.tokens s.dialect {})).map .assigned = meant.map Prod.fst)
    (hValues : (Landmark.sites false "" s.draft.landmarks).map Prod.snd = meant.map Prod.snd) :
    s.Binds meant := by
  refine .of_sites h ?_ hValues
  obtain ⟨rest, hDraft⟩ := List.head?_eq_some_iff.mp hHead
  rw [Token.sites, if_pos, hTargets]
  rw [hDraft]
  rfl

end Statement

end TableGateway
