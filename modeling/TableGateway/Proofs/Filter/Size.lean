import TableGateway.Proofs.Filter.Acceptance

/-!
# The size of filters

The shape check counts parentheses and connectives without knowing the grammar. Where the grammar
derives a filter, the parentheses are those of its groups and lists, and the connectives are those
between its conditions together with those that are items of lists. So a list may use up the
conditions that a filter is allowed.
-/

namespace TableGateway

/-- How deep parentheses are nested, with those that the atoms bring. -/
def Formula.depth {α : Type} (ofAtom : α → Nat) : Formula α → Nat
  | .atom a => ofAtom a
  | .combined left _ right => max (left.depth ofAtom) (right.depth ofAtom)
  | .group inner => inner.depth ofAtom + 1

namespace Grammar

variable {τ α : Type} [DecidableEq τ] {G : Grammar τ α} {ts us : List τ} {n : Nat}

/-- At no place are more than `n` parentheses open. -/
def Nests (G : Grammar τ α) (n : Nat) (ts : List τ) : Prop :=
  ∀ us vs, ts = us ++ vs → G.level us ≤ n

theorem nests_append (h : G.Balanced ts) : G.Nests n (ts ++ us) ↔ G.Nests n ts ∧ G.Nests n us := by
  constructor
  · intro hNests
    refine ⟨fun as bs hCut => hNests as (bs ++ us) (by rw [hCut, List.append_assoc]),
      fun as bs hCut => ?_⟩
    have hLevel := hNests (ts ++ as) bs (by rw [hCut, List.append_assoc])
    rwa [level_append, h.level_eq, Int.zero_add] at hLevel
  · rintro ⟨hLeft, hRight⟩ vs ws hCut
    rcases List.append_eq_append_iff.mp hCut with ⟨as, rfl, hAs⟩ | ⟨bs, hTs, -⟩
    · rw [level_append, h.level_eq, Int.zero_add]
      exact hRight as ws hAs
    · exact hLeft vs bs hTs

theorem nests_singleton {t : τ} (hOpening : t ≠ G.opening) (hClosing : t ≠ G.closing) :
    G.Nests n [t] := by
  intro us vs hCut
  rcases List.append_eq_singleton_iff.mp hCut.symm with ⟨rfl, -⟩ | ⟨rfl, -⟩
  · simp
  · simp [level, hOpening, hClosing]

theorem nests_of_forall (h : ∀ t ∈ ts, t ≠ G.opening ∧ t ≠ G.closing) : G.Nests n ts := by
  intro us vs hCut
  have hPlain : ∀ t ∈ us, t ≠ G.opening ∧ t ≠ G.closing := fun t ht =>
    h t (hCut ▸ List.mem_append_left vs ht)
  rw [(Balanced.of_forall hPlain).level_eq]
  exact Int.natCast_nonneg n

theorem nests_group (hNe : G.opening ≠ G.closing) (h : G.Balanced ts) :
    G.Nests n (G.opening :: ts ++ [G.closing]) ↔ ∃ m, n = m + 1 ∧ G.Nests m ts := by
  constructor
  · intro hNests
    have hOpen := hNests [G.opening] (ts ++ [G.closing]) rfl
    rw [level_opening hNe] at hOpen
    obtain ⟨m, rfl⟩ : ∃ m, n = m + 1 := ⟨n - 1, by omega⟩
    refine ⟨m, rfl, fun us vs hCut => ?_⟩
    have hLevel := hNests (G.opening :: us) (vs ++ [G.closing]) (by simp [hCut])
    rw [level_cons, level_opening hNe] at hLevel
    omega
  · rintro ⟨m, rfl, hNests⟩ us vs hCut
    rcases cut_group hCut with rfl | rfl | ⟨as, bs, rfl, hTs, -⟩
    · rw [level_nil]
      omega
    · rw [List.append_nil] at hCut
      rw [← hCut, (h.group hNe).level_eq]
      omega
    · have hLevel := hNests as bs hTs
      rw [level_cons, level_opening hNe]
      omega

/-- What is derived nests as deep as the formula, if each atom nests as deep as is said. -/
theorem Derives.nests_iff {r : Rank} {F : Formula α} {ofAtom : α → Nat} (hG : G.Lawful)
    (hAtom : ∀ {ts a n}, G.atom ts a → (G.Nests n ts ↔ ofAtom a ≤ n)) (h : G.Derives r ts F)
    (n : Nat) : G.Nests n ts ↔ F.depth ofAtom ≤ n := by
  induction h generalizing n with
  | atom h => exact hAtom h
  | group hInner ih =>
    rw [nests_group hG.opening_ne_closing (hInner.balanced hG), Formula.depth]
    constructor
    · rintro ⟨m, rfl, hNests⟩
      exact Nat.succ_le_succ ((ih m).mp hNests)
    · intro hDepth
      exact ⟨n - 1, by omega, (ih (n - 1)).mpr (by omega)⟩
  | single _ ih | alternative _ ih => exact ih n
  | and hLeft hSpells _ ihLeft ihRight | or hLeft hSpells _ ihLeft ihRight =>
    have hToken := nests_singleton (n := n) (hG.ne_opening hSpells) (hG.ne_closing hSpells)
    rw [nests_append (hLeft.balanced hG), ← List.singleton_append,
      nests_append (hG.balanced_spelled hSpells), ihLeft, ihRight, Formula.depth, Nat.max_le,
      and_iff_right hToken]

end Grammar

namespace Filter

/-- How deep parentheses are nested in the text of a filter. A list has parentheses of its own. -/
def depth : Filter → Nat
  | .condition c => if c.operator = .within then 1 else 0
  | .combined left _ right => max left.depth right.depth
  | .group inner => inner.depth + 1

theorem depth_formula (f : Filter) :
    f.formula.depth (fun c => if c.operator = .within then 1 else 0) = f.depth := by
  induction f with
  | condition c => rfl
  | combined left op right ihLeft ihRight => rw [formula, Formula.depth, ihLeft, ihRight, depth]
  | group inner ih => rw [formula, Formula.depth, ih, depth]

variable {e : Entity} {c : Column} {op : Comparison} {ls us vs : List Lexeme} {f : Filter}

theorem Value.nests_iff {v : Operand} {n : Nat} (h : Value c op ls v) :
    (grammar e).Nests n ls ↔ (if op = .within then 1 else 0) ≤ n := by
  have hWord (l : Lexeme) (hOpening : l ≠ .opening) (hClosing : l ≠ .closing) :
      (grammar e).Nests n [l] := Grammar.nests_singleton hOpening hClosing
  cases h with
  | list hItems =>
    have hBalanced : (grammar e).Balanced _ := .of_forall hItems.no_parentheses
    have hGroup := Grammar.nests_group (n := n) (grammar_lawful e).opening_ne_closing hBalanced
    refine hGroup.trans ?_
    rw [if_pos rfl]
    constructor
    · rintro ⟨m, rfl, -⟩
      exact Nat.le_add_left 1 m
    · intro hOne
      exact ⟨n - 1, by omega, Grammar.nests_of_forall hItems.no_parentheses⟩
  | quoted hOther | word hOther => simp [hOther, hWord]
  | null hEq => rcases hEq with rfl | rfl <;> simp [hWord]

theorem Written.nests_iff {cond : Condition} {n : Nat} (h : Written e ls cond) :
    (grammar e).Nests n ls ↔ (if cond.operator = .within then 1 else 0) ≤ n := by
  cases h with
  | @mk w c l op ls v _ _ hOperator hValue =>
    obtain ⟨w', rfl, -⟩ := spells_iff.mp hOperator
    have hPlain : ∀ l ∈ [Lexeme.word w, .word w'],
        l ≠ (grammar e).opening ∧ l ≠ (grammar e).closing := by simp [grammar]
    have hFront : (grammar e).Nests n ([.word w, .word w'] ++ ls) ↔ _ :=
      Grammar.nests_append (.of_forall hPlain)
    exact hFront.trans
      ((and_iff_right (Grammar.nests_of_forall hPlain)).trans hValue.nests_iff)

theorem nestsWithin_iff_of_derives {r : Rank} (h : (grammar e).Derives r ls f.formula) (n : Nat) :
    Lexeme.NestsWithin n ls ↔ f.depth ≤ n := by
  have hNests : Lexeme.NestsWithin n ls ↔ (grammar e).Nests n ls := by
    refine forall₂_congr fun before after => forall_congr' fun _ => ?_
    simp only [Grammar.level, grammar]
    omega
  rw [hNests, h.nests_iff (grammar_lawful e) Written.nests_iff, depth_formula]

end Filter

namespace Lexeme

/-- The connectives with a comma or a closing parenthesis behind them. In a filter these are the
items of lists that are spelled like connectives. -/
def listedConnectives : List Lexeme → Nat
  | l :: l' :: rest =>
    (if l.isConnective = true ∧ (l' = .comma ∨ l' = .closing) then 1 else 0) +
      listedConnectives (l' :: rest)
  | _ => 0

variable {l : Lexeme} {us vs : List Lexeme}

@[simp] theorem isConnective_opening : opening.isConnective = false := rfl

@[simp] theorem isConnective_closing : closing.isConnective = false := rfl

@[simp] theorem isConnective_comma : comma.isConnective = false := rfl

theorem listedConnectives_cons_of_not (h : l.isConnective = false) :
    listedConnectives (l :: us) = listedConnectives us := by
  cases us <;> simp [listedConnectives, h]

theorem listedConnectives_append
    (h : (∀ l ∈ us.getLast?, l.isConnective = false) ∨ ∀ l ∈ vs.head?, l ≠ .comma ∧ l ≠ .closing) :
    listedConnectives (us ++ vs) = listedConnectives us + listedConnectives vs := by
  induction us with
  | nil => simp [listedConnectives]
  | cons l us ih =>
    cases us with
    | nil =>
      cases vs with
      | nil => rfl
      | cons l' vs =>
        have hNone : ¬ (l.isConnective = true ∧ (l' = .comma ∨ l' = .closing)) := by
          rintro ⟨hConnective, hBehind⟩
          rcases h with hLast | hHead
          · rw [hLast l rfl] at hConnective
            cases hConnective
          · exact hBehind.elim (hHead l' rfl).1 (hHead l' rfl).2
        simp [listedConnectives, hNone]
    | cons l' us =>
      rw [List.cons_append, List.cons_append, listedConnectives, listedConnectives, Nat.add_assoc,
        ← List.cons_append, ih (h.imp_left fun hLast l hl => hLast l hl)]

end Lexeme

namespace Filter

open Lexeme

variable {e : Entity} {c : Column} {op : Comparison} {ls us : List Lexeme} {f : Filter}

/-- All connectives of a list are items. -/
theorem Items.listedConnectives_eq {values : List BoundValue} (h : Items c ls values) :
    listedConnectives (.opening :: ls ++ [.closing]) = ls.countP isConnective := by
  rw [List.cons_append, listedConnectives_cons_of_not isConnective_opening]
  induction h with
  | @last l =>
    by_cases hl : l.isConnective = true <;> simp [listedConnectives, hl]
  | @cons l s v ls vs _ _ _ ih =>
    rw [List.cons_append, List.cons_append, listedConnectives,
      listedConnectives_cons_of_not isConnective_comma, ih, List.countP_cons, List.countP_cons]
    simp [Nat.add_comm]

/-- Lexemes that can stand behind a connective and before the end of a group. -/
structure Whole (ls : List Lexeme) : Prop where
  ne_nil : ls ≠ []
  head : ∀ l ∈ ls.head?, l ≠ .comma ∧ l ≠ .closing
  last : ∀ l ∈ ls.getLast?, l.isConnective = false

theorem Whole.append (hLeft : Whole us) (hRight : Whole ls) (l : Lexeme) :
    Whole (us ++ l :: ls) where
  ne_nil := List.append_ne_nil_of_left_ne_nil hLeft.ne_nil _
  head := by
    rw [List.head?_append_of_ne_nil _ hLeft.ne_nil]
    exact hLeft.head
  last := by
    rw [List.getLast?_append_of_ne_nil _ (List.cons_ne_nil l ls),
      List.getLast?_cons_of_ne_nil hRight.ne_nil]
    exact hRight.last

/-- The connectives of what is derived stand between its conditions, or they are items. -/
def CountsConnectives (conditions : Nat) (ls : List Lexeme) : Prop :=
  ls.countP isConnective + 1 = conditions + listedConnectives ls

theorem isConnective_of_spells {l : Lexeme} (h : l.spells op.word = true) :
    l.isConnective = false := by
  obtain ⟨w, rfl, hWord⟩ := spells_iff.mp h
  rw [Bool.eq_false_iff, ne_eq, isConnective_iff]
  rintro ⟨combinator, hCombinator⟩
  have hSame := (spells_word_iff.mp hCombinator).symm.trans hWord
  revert hSame
  cases op <;> cases combinator <;> decide

theorem isConnective_of_null {w : List Char} (h : (Lexeme.word w).spells "null" = true) :
    (Lexeme.word w).isConnective = false := by
  rw [Bool.eq_false_iff, ne_eq, isConnective_iff]
  rintro ⟨combinator, hCombinator⟩
  have hSame := (spells_word_iff.mp hCombinator).symm.trans (spells_word_iff.mp h)
  revert hSame
  cases combinator <;> decide

theorem Value.last_and_count {v : Operand} (h : Value c op ls v) :
    ls ≠ [] ∧ (∀ l ∈ ls.getLast?, l.isConnective = false) ∧
      ls.countP isConnective = listedConnectives ls := by
  have hSingle {l : Lexeme} (hl : l.isConnective = false) :
      [l] ≠ [] ∧ (∀ x ∈ [l].getLast?, x.isConnective = false) ∧
        [l].countP isConnective = listedConnectives [l] := by
    simp [hl, listedConnectives]
  cases h with
  | list hItems =>
    refine ⟨by simp, ?_, ?_⟩
    · rw [List.getLast?_concat]
      rintro l ⟨⟩
      rfl
    · rw [hItems.listedConnectives_eq, List.countP_append, List.countP_cons]
      simp
  | quoted => exact hSingle rfl
  | null _ hNull => exact hSingle (isConnective_of_null hNull)
  | word _ hWord => exact hSingle hWord

theorem Written.whole_and_count {cond : Condition} (h : Written e ls cond) :
    Whole ls ∧ CountsConnectives 1 ls := by
  cases h with
  | @mk w c l op ls v hWord _ hOperator hValue =>
    obtain ⟨hNe, hLast, hCount⟩ := hValue.last_and_count
    have hOperatorFree := isConnective_of_spells hOperator
    refine ⟨⟨List.cons_ne_nil _ _, ?_, ?_⟩, ?_⟩
    · rintro l ⟨⟩
      exact ⟨nofun, nofun⟩
    · rw [List.getLast?_cons_cons, List.getLast?_cons_of_ne_nil hNe]
      exact hLast
    · rw [CountsConnectives, listedConnectives_cons_of_not hWord,
        listedConnectives_cons_of_not hOperatorFree, List.countP_cons, List.countP_cons, hWord,
        hOperatorFree, hCount]
      simp [Nat.add_comm]

theorem whole_and_count_of_derives {r : Rank} {F : Formula Condition}
    (h : (grammar e).Derives r ls F) : Whole ls ∧ CountsConnectives F.atoms.length ls := by
  induction h with
  | atom h => exact h.whole_and_count
  | @group ts F _ ih =>
    obtain ⟨hWhole, hCount⟩ := ih
    refine ⟨⟨by simp, ?_, ?_⟩, ?_⟩
    · rintro l ⟨⟩
      exact ⟨nofun, nofun⟩
    · rw [List.getLast?_concat]
      rintro l ⟨⟩
      rfl
    · have hClosing : listedConnectives (ts ++ [.closing]) = listedConnectives ts + 0 :=
        listedConnectives_append (.inl hWhole.last)
      have hListed : listedConnectives (.opening :: ts ++ [.closing]) = listedConnectives ts :=
        (listedConnectives_cons_of_not isConnective_opening).trans hClosing
      have hCounted : (Lexeme.opening :: ts ++ [Lexeme.closing]).countP isConnective =
          ts.countP isConnective := by simp
      rw [CountsConnectives] at hCount ⊢
      exact hCounted ▸ hListed.symm ▸ hCount
  | single _ ih | alternative _ ih => exact ih
  | @and ts F t us H _ hSpells _ ihLeft ihRight | @or ts F t us H _ hSpells _ ihLeft ihRight =>
    obtain ⟨hLeft, hLeftCount⟩ := ihLeft
    obtain ⟨hRight, hRightCount⟩ := ihRight
    have hConnective : t.isConnective = true := isConnective_iff.mpr ⟨_, hSpells⟩
    obtain ⟨w, rfl, -⟩ := spells_iff.mp hSpells
    have hBefore : listedConnectives (ts ++ .word w :: us) =
        listedConnectives ts + listedConnectives ([.word w] ++ us) :=
      listedConnectives_append (.inr (by rintro l ⟨⟩; exact ⟨nofun, nofun⟩))
    have hBehind : listedConnectives ([.word w] ++ us) = 0 + listedConnectives us :=
      listedConnectives_append (.inr hRight.head)
    refine ⟨hLeft.append hRight _, ?_⟩
    rw [CountsConnectives] at hLeftCount hRightCount ⊢
    rw [hBefore, hBehind, List.countP_append, List.countP_cons, hConnective, Formula.atoms,
      List.length_append]
    simp only [if_true]
    omega

/-- Of what the grammar derives, the compiler accepts what keeps two bounds: parentheses are nested
at most as deep as is allowed, and the conditions, together with the connectives that are items of
lists, are no more than are allowed. So what it accepts keeps both limits. -/
theorem limits_count_conditions_and_items (e : Entity) (raw : String) :
    (∀ ls f, Cuts raw.toList ls → (grammar e).Derives .expression ls f.formula →
      (∀ n, NestsWithin n ls ↔ f.depth ≤ n) ∧
      (compile e raw = .ok f ↔ f.depth ≤ maxFilterDepth ∧
        f.conditions.length + listedConnectives ls ≤ maxFilterConditions)) ∧
    ∀ f, compile e raw = .ok f →
      f.depth ≤ maxFilterDepth ∧ f.conditions.length ≤ maxFilterConditions := by
  have hBounds (ls : List Lexeme) (f : Filter)
      (hDerives : (grammar e).Derives .expression ls f.formula) :
      NestsWithin 64 ls ∧ ls.countP isConnective ≤ 255 ↔ f.depth ≤ maxFilterDepth ∧
        f.conditions.length + listedConnectives ls ≤ maxFilterConditions := by
    have hCount := (whole_and_count_of_derives hDerives).2
    rw [CountsConnectives, ← conditions_eq_atoms] at hCount
    rw [nestsWithin_iff_of_derives hDerives, ← hCount]
    exact and_congr_right fun _ => Nat.succ_le_succ_iff.symm
  constructor
  · intro ls f hCuts hDerives
    refine ⟨nestsWithin_iff_of_derives hDerives, ?_⟩
    rw [← hBounds ls f hDerives, compile_eq_ok_iff]
    constructor
    · rintro ⟨-, ms, hMs, hNests, hFew, -⟩
      obtain rfl := Except.ok.inj ((lex_of_cuts hCuts).symm.trans (lex_of_cuts hMs))
      exact ⟨hNests, hFew⟩
    · rintro ⟨hNests, hFew⟩
      have hNe := (whole_and_count_of_derives hDerives).1.ne_nil
      exact ⟨hCuts.exists_not_blank_iff.mpr hNe, ls, hCuts, hNests, hFew, hDerives⟩
  · intro f hCompile
    obtain ⟨-, ls, -, hNests, hFew, hDerives⟩ := (compile_eq_ok_iff e raw f).mp hCompile
    obtain ⟨hDepth, hSize⟩ := (hBounds ls f hDerives).mp ⟨hNests, hFew⟩
    exact ⟨hDepth, Nat.le_trans (Nat.le_add_right _ _) hSize⟩

/-- The word `and` as an item, `n + 1` times with commas between them, and the end of the list. -/
def itemsText (n : Nat) : List Char := (List.replicate n "and,".toList).flatten ++ "and)".toList

def itemLexemes (n : Nat) : List Lexeme :=
  (List.replicate n [Lexeme.word "and".toList, .comma]).flatten ++ [.word "and".toList]

/-- One condition, on a name that is one of `n + 1` items. -/
def crowdedText (n : Nat) : String := String.ofList ("Name in (".toList ++ itemsText n)

def crowdedLexemes (n : Nat) : List Lexeme :=
  .word "Name".toList :: .word "in".toList :: (.opening :: itemLexemes n ++ [.closing])

def crowdedFilter (n : Nat) : Filter :=
  .condition ⟨"t_items", "Name", .text, .within, .list (List.replicate (n + 1) (.text "and"))⟩

theorem cuts_itemsText (n : Nat) : Cuts (itemsText n) (itemLexemes n ++ [.closing]) := by
  have hWord {c : Char} {cs : List Char} {ls : List Lexeme} (hStop : isWordChar c = false)
      (h : Cuts (c :: cs) ls) : Cuts ("and".toList ++ c :: cs) (.word "and".toList :: ls) :=
    .bareWord "and" (by decide) (by decide) hStop h
  induction n with
  | zero => exact hWord rfl (.closing .nil)
  | succ n ih => exact hWord rfl (.comma ih)

theorem cuts_crowdedText (n : Nat) : Cuts (crowdedText n).toList (crowdedLexemes n) := by
  have hName {cs : List Char} {ls : List Lexeme} (w : String) (hNe : w.toList ≠ [])
      (hWord : w.toList.all isWordChar = true) (h : Cuts cs ls) :
      Cuts (w.toList ++ ' ' :: cs) (.word w.toList :: ls) :=
    .bareWord w hNe hWord rfl (.blank rfl h)
  have hText (cs : List Char) : (String.ofList ("Name in (".toList ++ cs)).toList =
      "Name".toList ++ ' ' :: ("in".toList ++ ' ' :: '(' :: cs) :=
    String.toList_ofList
  have hCuts := hName "Name" (by decide) (by decide)
    (hName "in" (by decide) (by decide) (.opening (cuts_itemsText n)))
  exact (hText (itemsText n)).symm ▸ hCuts

theorem items_itemLexemes (n : Nat) :
    Items { name := "Name", type := .text } (itemLexemes n)
      (List.replicate (n + 1) (.text "and")) := by
  induction n with
  | zero => exact .last (.inr rfl) rfl
  | succ n ih => exact .cons (.inr rfl) rfl ih

theorem derives_crowdedLexemes (n : Nat) :
    (grammar sampleEntity).Derives .expression (crowdedLexemes n) (crowdedFilter n).formula :=
  .alternative (.single (.atom
    (.mk (c := { name := "Name", type := .text }) rfl rfl rfl (.list (items_itemLexemes n)))))

theorem listedConnectives_crowdedLexemes (n : Nat) :
    listedConnectives (crowdedLexemes n) = n + 1 := by
  have hItems : (itemLexemes n).countP isConnective = n + 1 := by
    induction n with
    | zero => rfl
    | succ n ih =>
      change ([Lexeme.word "and".toList, .comma] ++ itemLexemes n).countP isConnective = n + 1 + 1
      rw [List.countP_append, ih, Nat.add_comm]
      rfl
  rw [← hItems, ← (items_itemLexemes n).listedConnectives_eq, crowdedLexemes,
    listedConnectives_cons_of_not (by decide), listedConnectives_cons_of_not (by decide)]

/-- With 255 items the one condition is accepted. -/
theorem crowdedText_keeps_limits :
    Cuts (crowdedText 254).toList (crowdedLexemes 254) ∧
      (grammar sampleEntity).Derives .expression (crowdedLexemes 254)
        (crowdedFilter 254).formula ∧
      compile sampleEntity (crowdedText 254) = .ok (crowdedFilter 254) ∧
      (crowdedFilter 254).conditions.length ≤ maxFilterConditions := by
  have hLimits := limits_count_conditions_and_items sampleEntity (crowdedText 254)
  have hAccepted :=
    (hLimits.1 _ _ (cuts_crowdedText 254) (derives_crowdedLexemes 254)).2.mpr
      ⟨by decide, by rw [listedConnectives_crowdedLexemes]; decide⟩
  exact ⟨cuts_crowdedText 254, derives_crowdedLexemes 254, hAccepted, (hLimits.2 _ hAccepted).2⟩

/-- With 256 items the one condition, in one pair of parentheses, is not accepted. -/
theorem crowdedText_is_refused :
    Cuts (crowdedText 255).toList (crowdedLexemes 255) ∧
      (grammar sampleEntity).Derives .expression (crowdedLexemes 255)
        (crowdedFilter 255).formula ∧
      (crowdedFilter 255).conditions.length = 1 ∧ NestsWithin 1 (crowdedLexemes 255) ∧
      ∀ f, compile sampleEntity (crowdedText 255) ≠ .ok f := by
  have hDerives := derives_crowdedLexemes 255
  refine ⟨cuts_crowdedText 255, hDerives, rfl, ?_, fun f hCompile => ?_⟩
  · exact (nestsWithin_iff_of_derives hDerives 1).mpr (Nat.le_refl 1)
  · obtain ⟨-, ls, hCuts, -, hFew, -⟩ := (compile_eq_ok_iff sampleEntity _ f).mp hCompile
    obtain rfl :=
      Except.ok.inj ((lex_of_cuts (cuts_crowdedText 255)).symm.trans (lex_of_cuts hCuts))
    have hCount := (whole_and_count_of_derives hDerives).2
    rw [CountsConnectives, listedConnectives_crowdedLexemes] at hCount
    change _ = 1 + 256 at hCount
    omega

end Filter

end TableGateway
