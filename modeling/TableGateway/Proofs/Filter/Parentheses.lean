import TableGateway.Proofs.Filter.Acceptance

/-!
# Parentheses that do not match

Only the shape check finds out that parentheses do not match, and it says where: at the first one
that closes nothing, or at the end. Every reader takes a balanced stretch of lexemes. So inside a
group or a list there is always a lexeme left of a filter that has passed the check, and no reader
comes to the end where it still needs one.
-/

namespace TableGateway

namespace Lexeme

variable {ls us vs : List Lexeme} {m n : Nat}

/-- Some parenthesis closes nothing, or some are never closed. -/
def Unbalanced (ls : List Lexeme) : Prop :=
  (∃ before after, ls = before ++ after ∧ before.count .opening < before.count .closing) ∨
    ls.count .closing < ls.count .opening

/-- Behind `m` open parentheses these lexemes close nothing that is not open, and behind them `n`
are open. -/
structure Leads (m n : Nat) (ls : List Lexeme) : Prop where
  openings_eq : m + openings ls = n
  nonneg : ∀ {before after}, ls = before ++ after → 0 ≤ m + openings before

theorem openings_append (us vs : List Lexeme) :
    openings (us ++ vs) = openings us + openings vs := by
  simp only [openings, List.count_append, Int.natCast_add]
  omega

theorem nestsWithin_of_length_le (h : ls.length ≤ n) : NestsWithin n ls := by
  rintro before after rfl
  have hCount := before.count_le_length (a := Lexeme.opening)
  rw [List.length_append] at h
  omega

theorem not_unbalanced_iff : ¬ Unbalanced ls ↔ Leads 0 0 ls := by
  rw [Unbalanced, not_or]
  constructor
  · rintro ⟨hNone, hAll⟩
    have hNonneg {before after : List Lexeme} (hCut : ls = before ++ after) :
        0 ≤ ((0 : Nat) : Int) + openings before := by
      have hFew : ¬ before.count .opening < before.count .closing :=
        fun hLt => hNone ⟨before, after, hCut, hLt⟩
      rw [openings]
      omega
    have hEnd := hNonneg (List.append_nil ls).symm
    refine ⟨?_, hNonneg⟩
    rw [openings] at hEnd ⊢
    omega
  · rintro ⟨hEq, hNonneg⟩
    refine ⟨?_, ?_⟩
    · rintro ⟨before, after, hCut, hLt⟩
      have hBefore := hNonneg hCut
      rw [openings] at hBefore
      omega
    · rw [openings] at hEq
      omega

namespace Leads

theorem ne_nil (h : Leads (m + 1) 0 ls) : ls ≠ [] := by
  rintro rfl
  have hEq := h.openings_eq
  simp only [openings, List.count_nil] at hEq
  omega

theorem behind {k : Nat} (h : Leads m n (us ++ vs)) (hOpen : m + openings us = k) :
    Leads k n vs where
  openings_eq := by
    have hEq := h.openings_eq
    rw [openings_append] at hEq
    omega
  nonneg := by
    rintro before after rfl
    have hBefore := h.nonneg (List.append_assoc us before after).symm
    rw [openings_append] at hBefore
    omega

theorem behind_balanced {e : Entity} (h : Leads m n (us ++ vs))
    (hBalanced : (Filter.grammar e).Balanced us) : Leads m n vs := by
  have hLevel : openings us = 0 := hBalanced.level_eq
  exact h.behind (by rw [hLevel, Int.add_zero])

theorem behind_opening (h : Leads m n (.opening :: ls)) : Leads (m + 1) n ls := by
  rw [← List.singleton_append] at h
  exact h.behind (by simp [openings])

theorem behind_other {l : Lexeme} (h : Leads m n (l :: ls)) (hOpening : l ≠ .opening)
    (hClosing : l ≠ .closing) : Leads m n ls := by
  rw [← List.singleton_append] at h
  exact h.behind (by simp [openings, hOpening, hClosing])

theorem behind_word {w : List Char} (h : Leads m n (.word w :: ls)) : Leads m n ls :=
  h.behind_other (by simp) (by simp)

end Leads

/-- How parentheses fail to match where they are read from the left: at one that closes nothing,
which is shown behind the three lexemes before it, or at the end, with the number of open ones. -/
inductive Mismatch : List Lexeme → Imbalance → Prop
  | closesNothing {before after : List Lexeme} : Leads 0 0 before →
      Mismatch (before ++ .closing :: after) (.unexpectedClosing (before.drop (before.length - 3)))
  | staysOpen {ls : List Lexeme} {n : Nat} : Leads 0 (n + 1) ls → Mismatch ls (.open (n + 1))

namespace Shape

variable {s : Shape} {fault : QueryError}

theorem within_start : Within {} := ⟨Nat.zero_le _, by decide⟩

theorem step_eq_error {l : Lexeme} (h : s.step l = .error fault) :
    (l = .opening ∧ maxFilterDepth < s.depth + 1) ∨
      (l.isConnective = true ∧ maxFilterConditions ≤ s.combinators + 1) ∨
      (l = .closing ∧ s.depth = 0 ∧ fault = .unbalanced (.unexpectedClosing s.lastShown)) := by
  rw [step.eq_def] at h
  split at h
  · split at h
    · next hDeep => exact .inl ⟨rfl, hDeep⟩
    · cases h
  · split at h
    · next hDepth =>
      cases h
      exact .inr (.inr ⟨rfl, hDepth, rfl⟩)
    · cases h
  · rw [Filter.isCombinator_eq_isConnective] at h
    split at h
    · cases h
    · next hConnective =>
      split at h
      · next hMany => exact .inr (.inl ⟨by simpa using hConnective, hMany⟩)
      · cases h

/-- The check fails at the first lexeme that it does not let through. -/
theorem foldlM_step_eq_error (hWithin : s.Within) (h : ls.foldlM step s = .error fault) :
    ∃ before l after, ls = before ++ l :: after ∧ s.Passes before ∧
      (before.foldl next s).step l = .error fault := by
  induction ls generalizing s with
  | nil => cases h
  | cons l ls ih =>
    rw [List.foldlM_cons, Outcome.bind_eq_error_iff] at h
    rcases h with hFirst | ⟨t, hStep, hRest⟩
    · exact ⟨[], l, ls, rfl, passes_nil hWithin, hFirst⟩
    · obtain ⟨hNonneg, hNext, rfl⟩ := (step_eq_ok_iff hWithin).mp hStep
      obtain ⟨before, l', after, rfl, hPasses, hFault⟩ := ih hNext hRest
      exact ⟨l :: before, l', after, rfl, (passes_cons hWithin).mpr ⟨hNonneg, hNext, hPasses⟩,
        hFault⟩

theorem before_foldl_next (s : Shape) (ls : List Lexeme) :
    (ls.foldl next s).before = ls.reverse ++ s.before := by
  induction ls generalizing s with
  | nil => rfl
  | cons l ls ih =>
    rw [List.foldl_cons, ih, next, List.reverse_cons, List.append_assoc]
    rfl

theorem combinators_foldl_next (s : Shape) (ls : List Lexeme) :
    (ls.foldl next s).combinators = s.combinators + ls.countP isConnective := by
  induction ls generalizing s with
  | nil => rfl
  | cons l ls ih => rw [List.foldl_cons, ih, combinators_next]

theorem lastShown_foldl_next (ls : List Lexeme) :
    (ls.foldl next {}).lastShown = ls.drop (ls.length - 3) := by
  rw [lastShown, before_foldl_next, List.append_nil, List.take_reverse, List.reverse_reverse]

/-- What passes has no parenthesis that closes nothing. -/
theorem Passes.leads (hPasses : Passes {} ls) : Leads 0 (ls.foldl next {}).depth ls where
  openings_eq := (depth_foldl_next within_start hPasses).symm
  nonneg hCut := (hPasses _ _ hCut).1

end Shape

theorem leads_of_checkShape (h : checkShape ls = .ok ()) : Leads 0 0 ls := by
  obtain ⟨hPasses, hClosed⟩ := checkShape_eq_ok_iff.mp h
  exact ⟨by rw [hClosed]; rfl, fun hCut => (hPasses _ _ hCut).1⟩

theorem checkShape_of_leads (h : Leads 0 0 ls) (hNests : NestsWithin maxFilterDepth ls)
    (hFew : ls.countP isConnective < maxFilterConditions) : checkShape ls = .ok () := by
  have hClosed := h.openings_eq
  refine checkShape_eq_ok_iff.mpr ⟨fun before after hCut => ?_, by omega⟩
  have hSome : before.countP isConnective ≤ ls.countP isConnective :=
    (hCut ▸ List.sublist_append_left before after).countP_le
  have hDepth := hNests before after hCut
  refine ⟨h.nonneg hCut, ?_, ?_⟩
  · rw [openings]
    dsimp only
    omega
  · dsimp only
    omega

/-- Within the limits the check fails only where parentheses do not match. -/
theorem mismatch_of_checkShape {fault : QueryError} (hNests : NestsWithin maxFilterDepth ls)
    (hFew : ls.countP isConnective < maxFilterConditions) (h : checkShape ls = .error fault) :
    ∃ how, fault = .unbalanced how ∧ Mismatch ls how := by
  rw [checkShape, Outcome.bind_eq_error_iff] at h
  rcases h with hFold | ⟨s, hFold, hEnd⟩
  · obtain ⟨before, l, after, rfl, hPasses, hFault⟩ :=
      Shape.foldlM_step_eq_error Shape.within_start hFold
    have hLeads := hPasses.leads
    have hOpen := hLeads.openings_eq
    have hCut : before ++ l :: after = before ++ [l] ++ after := by simp
    rcases Shape.step_eq_error hFault with ⟨rfl, hDeep⟩ | ⟨hConnective, hMany⟩ | ⟨rfl, hZero, rfl⟩
    · have hDepth := hNests _ _ hCut
      simp only [List.count_append, List.count_singleton_self] at hDepth
      rw [openings] at hOpen
      simp at hDepth
      omega
    · rw [Shape.combinators_foldl_next] at hMany
      rw [List.countP_append, List.countP_cons_of_pos hConnective] at hFew
      dsimp only at hMany
      omega
    · rw [hZero] at hLeads
      rw [Shape.lastShown_foldl_next]
      exact ⟨_, rfl, .closesNothing hLeads⟩
  · obtain ⟨hPasses, rfl⟩ := (Shape.foldlM_step_eq_ok_iff Shape.within_start).mp hFold
    split at hEnd
    · cases hEnd
    · next hDepth =>
      cases hEnd
      have hLeads := hPasses.leads
      obtain ⟨n, hOpen⟩ := Nat.exists_eq_succ_of_ne_zero hDepth
      rw [hOpen] at hLeads ⊢
      exact ⟨_, rfl, .staysOpen hLeads⟩

end Lexeme

/-- A parenthesis is left open, or closes nothing, or the end stands in place of a condition. -/
def QueryError.isOverrun : QueryError → Bool
  | .unbalanced _ | .malformedFilter .missingCondition => true
  | _ => false

namespace Filter

open Lexeme (Leads)

/-- The reader does not come to the end too early. -/
def Stays {α : Type} (x : Except QueryError α) : Prop :=
  ∀ fault, x = .error fault → fault.isOverrun = false

section Stays

variable {α β : Type} {x : Except QueryError α}

theorem Stays.ok (a : α) : Stays (.ok a) := nofun

theorem Stays.error {fault : QueryError} (h : fault.isOverrun = false) :
    Stays (.error fault : Except QueryError α) := by
  rintro fault' ⟨⟩
  exact h

theorem Stays.bind {f : α → Except QueryError β} (hx : Stays x)
    (hf : ∀ a, x = .ok a → Stays (f a)) : Stays (x >>= f) := by
  intro fault h
  rcases Outcome.bind_eq_error_iff.mp h with hFirst | ⟨a, hFirst, hRest⟩
  · exact hx fault hFirst
  · exact hf a hFirst fault hRest

theorem Stays.map {f : α → β} (hx : Stays x) : Stays (x.map f) :=
  fun fault h => hx fault (Outcome.map_eq_error_iff.mp h)

end Stays

variable {e : Entity} {c : Column} {op : Comparison} {ls : List Lexeme} {n : Nat}

theorem stays_ofText (c : Column) (s : String) : Stays (BoundValue.ofText c s) := by
  rw [BoundValue.ofText]
  split
  · exact .ok _
  · exact .error rfl

theorem stays_literal (s : List Char) : Stays (literal c op s) := by
  rw [literal]
  split
  · exact .ok _
  · exact stays_ofText c _

theorem stays_bareLiteral (w : List Char) : Stays (bareLiteral c op w) := by
  rw [bareLiteral]
  split
  · split
    · exact .ok _
    · exact .error rfl
  · exact stays_literal w

theorem stays_singleValue (ls : List Lexeme) : Stays (singleValue c op ls) := by
  rw [singleValue.eq_def]
  split
  · exact (stays_literal _).map
  · split
    · exact .error rfl
    · exact (stays_bareLiteral _).map
  · exact .error rfl

theorem not_parenthesis_of_itemText? {l : Lexeme} {s : List Char} (h : itemText? l = some s) :
    l ≠ .opening ∧ l ≠ .closing := by
  rcases itemText?_eq_some_iff.mp h with rfl | rfl <;> simp

/-- Behind an item a parenthesis is still open, so a lexeme is left. -/
theorem stays_items {isFirst : Bool} {ls : List Lexeme} (h : Leads (n + 1) 0 ls) :
    Stays (items c isFirst ls) := by
  cases ls with
  | nil => exact absurd rfl h.ne_nil
  | cons l rest =>
    rw [items]
    cases hText : itemText? l with
    | none =>
      refine .error ?_
      rw [itemFault]
      split <;> rfl
    | some s =>
      obtain ⟨hOpening, hClosing⟩ := not_parenthesis_of_itemText? hText
      have hRest := h.behind_other hOpening hClosing
      refine (stays_ofText c _).bind fun v _ => ?_
      split
      · exact absurd rfl hRest.ne_nil
      · exact .ok _
      · next after =>
        exact (stays_items (hRest.behind_other (by simp) (by simp))).bind fun _ _ => .ok _
      · exact .error rfl
termination_by ls.length

theorem stays_listValue (h : Leads n 0 ls) : Stays (listValue c ls) := by
  rw [listValue.eq_def]
  split
  · exact (stays_items h.behind_opening).bind fun _ _ => .ok _
  · exact .error rfl

theorem stays_operand (h : Leads n 0 ls) : Stays (operand c op ls) := by
  rw [operand]
  split
  · exact (stays_listValue h).map
  · exact (stays_singleValue ls).map

theorem stays_operator (l : Lexeme) : Stays (operator l) := by
  rw [operator.eq_def]
  split
  · next w =>
    cases Comparison.ofWord? w with
    | none => exact .error rfl
    | some op => exact .ok op
  · exact .error rfl

theorem stays_comparison (h : Leads n 0 ls) : Stays (comparison e c ls) := by
  rw [comparison.eq_def]
  split
  · exact .error rfl
  · next l rest =>
    refine (stays_operator l).bind fun op hOperator => ?_
    obtain ⟨w, rfl, -⟩ := spells_iff.mp (operator_eq_ok_iff.mp hOperator)
    exact (stays_operand (h.behind_word)).bind fun _ _ => .ok _

theorem stays_conditionOn {w : List Char} (h : Leads n 0 ls) : Stays (conditionOn e w ls) := by
  rw [conditionOn]
  split
  · exact stays_comparison h
  · refine .error ?_
    rw [leadingFault]
    split <;> rfl

theorem leads_of_leaves_term {t : Filter} {rest : List Lexeme} (h : Leads n 0 ls)
    (hTerm : Leaves (term e ls) t rest) : Leads n 0 rest := by
  obtain ⟨us, rfl, hDerives⟩ := ((readers_exact e ls).1 t rest).mp hTerm
  exact h.behind_balanced (hDerives.balanced (grammar_lawful e))

theorem leads_of_leaves_chain {f : Filter} {rest : List Lexeme} (h : Leads n 0 ls)
    (hChain : Leaves (chain e ls) f rest) : Leads n 0 rest := by
  obtain ⟨us, rfl, hDerives, -⟩ := ((readers_exact e ls).2.2 f rest).mp hChain
  exact h.behind_balanced (hDerives.balanced (grammar_lawful e))

def TermStays (e : Entity) (ls : List Lexeme) : Prop :=
  ∀ n, Leads n 0 ls → ls ≠ [] → Stays (term e ls)

def TailStays (e : Entity) (ls : List Lexeme) : Prop := ∀ n, Leads n 0 ls → Stays (moreTerms e ls)

def ChainStays (e : Entity) (ls : List Lexeme) : Prop :=
  ∀ n, Leads n 0 ls → ls ≠ [] → Stays (chain e ls)

theorem chainStays (hTermStays : TermStays e ls)
    (hTailStays : ∀ mid : Shorter ls, TailStays e mid) : ChainStays e ls := by
  intro n h hNe
  rw [chain]
  refine (hTermStays n h hNe).bind ?_
  rintro ⟨t, mid⟩ hTerm
  have hMid := leads_of_leaves_term h ⟨mid.property, hTerm⟩
  exact (hTailStays mid n hMid).bind fun _ _ => .ok _

theorem tailStays (hTermStays : ∀ mid : Shorter ls, TermStays e mid)
    (hTailStays : ∀ mid : Shorter ls, TailStays e mid) : TailStays e ls := by
  intro n h
  rw [moreTerms.eq_def]
  split
  · next w next =>
    have hNext : next.length < (Lexeme.word w :: next).length := by simp
    split
    · exact .ok _
    · split
      · exact .error rfl
      · next hDangling =>
        have hNe : next ≠ [] := by
          rintro rfl
          exact hDangling rfl
        have hLeads := h.behind_word
        refine (hTermStays ⟨next, hNext⟩ n hLeads hNe).bind ?_
        rintro ⟨t, mid⟩ hTerm
        have hMid := leads_of_leaves_term hLeads ⟨mid.property, hTerm⟩
        exact (hTailStays ⟨mid, mid.property.trans hNext⟩ n hMid).bind fun _ _ => .ok _
  · exact .ok _

theorem termStays (hChainStays : ∀ mid : Shorter ls, ChainStays e mid) : TermStays e ls := by
  intro n h hNe
  rw [term.eq_def]
  split
  · exact absurd rfl hNe
  · exact .error rfl
  · next next _ =>
    have hInside := h.behind_opening
    have hContent := hChainStays ⟨next, by simp⟩ (n + 1) hInside hInside.ne_nil
    split
    · next hChain => exact .error (hContent _ hChain)
    · next hChain => exact absurd rfl (leads_of_leaves_chain hInside ⟨_, hChain⟩).ne_nil
    · exact .ok _
    · exact .error rfl
  · split
    · exact .error rfl
    · exact (stays_conditionOn (h.behind_word)).bind fun _ _ => .ok _
  · exact .error rfl
  · exact .error rfl

theorem readers_stay (e : Entity) (ls : List Lexeme) :
    TermStays e ls ∧ TailStays e ls ∧ ChainStays e ls := by
  induction hLength : ls.length using Nat.strongRecOn generalizing ls with
  | ind n ih =>
    subst hLength
    have hTerm : TermStays e ls := termStays fun mid => (ih _ mid.property mid rfl).2.2
    have hTail (mid : Shorter ls) : TailStays e mid := (ih _ mid.property mid rfl).2.1
    exact ⟨hTerm, tailStays (fun mid => (ih _ mid.property mid rfl).1) hTail,
      chainStays hTerm hTail⟩

theorem stays_ofLexemes (h : Leads 0 0 ls) (hNe : ls ≠ []) : Stays (ofLexemes e ls) := by
  rw [ofLexemes]
  refine ((readers_stay e ls).2.2 0 h hNe).bind ?_
  rintro ⟨f, rest⟩ -
  dsimp only
  split
  · exact .ok _
  · exact .error rfl

/-- Within the limits a filter is refused for its parentheses exactly where they do not match, and
the error says how. Behind the shape check no reader misses a parenthesis or a condition. -/
theorem unbalanced_is_reported_iff (e : Entity) {raw : String}
    (hText : ∃ c ∈ raw.toList, Text.isBlank c = false) (hCuts : Lexeme.Cuts raw.toList ls)
    (hNests : Lexeme.NestsWithin maxFilterDepth ls)
    (hFew : ls.countP Lexeme.isConnective < maxFilterConditions) :
    ((∃ how, compile e raw = .error (.unbalanced how)) ↔ Lexeme.Unbalanced ls) ∧
      (∀ how, compile e raw = .error (.unbalanced how) → Lexeme.Mismatch ls how) ∧
      (Lexeme.checkShape ls = .ok () →
        ∀ fault, ofLexemes e ls = .error fault → fault.isOverrun = false) := by
  have hBlank : ¬ Text.isBlankText raw = true := by simpa [Text.isBlankText] using hText
  have hCompile : compile e raw = Lexeme.checkShape ls >>= fun _ => ofLexemes e ls := by
    rw [compile, if_neg hBlank, Lexeme.lex_of_cuts hCuts]
  have hStays (hShape : Lexeme.checkShape ls = .ok ()) : Stays (ofLexemes e ls) :=
    stays_ofLexemes (Lexeme.leads_of_checkShape hShape) (hCuts.exists_not_blank_iff.mp hText)
  rw [hCompile]
  cases hShape : Lexeme.checkShape ls with
  | ok =>
    have hBalanced := Lexeme.not_unbalanced_iff.mpr (Lexeme.leads_of_checkShape hShape)
    have hNone (how : Imbalance) : ofLexemes e ls ≠ .error (.unbalanced how) :=
      fun h => Bool.false_ne_true (hStays hShape _ h).symm
    exact ⟨iff_of_false (not_exists.mpr hNone) hBalanced, fun how h => absurd h (hNone how),
      fun _ => hStays hShape⟩
  | error fault =>
    obtain ⟨how, rfl, hMismatch⟩ := Lexeme.mismatch_of_checkShape hNests hFew hShape
    have hUnbalanced : Lexeme.Unbalanced ls := by
      by_contra hNot
      have hOk := Lexeme.checkShape_of_leads (Lexeme.not_unbalanced_iff.mp hNot) hNests hFew
      cases hShape.symm.trans hOk
    refine ⟨iff_of_true ⟨how, rfl⟩ hUnbalanced, ?_, ?_⟩
    · rintro how' ⟨⟩
      exact hMismatch
    · rintro ⟨⟩

/-- The parenthesis in quotes closes nothing. -/
theorem unclosedGroup_is_reported :
    (∃ c ∈ "(name eq ')'".toList, Text.isBlank c = false) ∧
      Lexeme.Cuts "(name eq ')'".toList
        [.opening, .word "name".toList, .word "eq".toList, .quoted ")".toList] ∧
      ∃ how, compile sampleEntity "(name eq ')'" = .error (.unbalanced how) := by
  have hText : ∃ c ∈ "(name eq ')'".toList, Text.isBlank c = false :=
    ⟨'(', List.mem_cons_self, rfl⟩
  have hCuts : Lexeme.Cuts "(name eq ')'".toList
      [.opening, .word "name".toList, .word "eq".toList, .quoted ")".toList] := by
    refine .opening (.bareWord "name" (by decide) (by decide) rfl (.blank rfl ?_))
    refine .bareWord "eq" (by decide) (by decide) rfl (.blank rfl ?_)
    exact .quoted (s := ")".toList) nofun .nil
  have hReported := unbalanced_is_reported_iff sampleEntity hText hCuts
    (Lexeme.nestsWithin_of_length_le (by decide)) (by decide)
  exact ⟨hText, hCuts, hReported.1.mpr (.inr (by decide))⟩

end Filter

end TableGateway
