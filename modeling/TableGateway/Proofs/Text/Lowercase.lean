import TableGateway.Text.Basic
import TableGateway.Text.Lowercase

/-!
# Full lower case and ASCII case

Texts that agree up to ASCII case have one lower case. So names that differ in lower case also
differ as names, and go on to differ behind a prefix that no letter reaches over.
-/

namespace TableGateway.Text

variable {a b : String}

/-- All that lower-casing asks of a character. -/
def caseOf (c : Char) : List Char × Bool × Bool × Bool :=
  (lowerChar c, isCased c, isCaseIgnorable c, c = '\u03a3')

theorem caseOf_toLower (c : Char) : caseOf c.toLower = caseOf c := by
  by_cases hUpper : 65 ≤ c.toNat ∧ c.toNat ≤ 90
  · have hLetters : ∀ n < 26,
        caseOf (Char.ofNat (65 + n)).toLower = caseOf (Char.ofNat (65 + n)) := by
      decide +kernel
    have hLetter := hLetters (c.toNat - 65) (by omega)
    rwa [Nat.add_sub_cancel' hUpper.1, Char.ofNat_toNat] at hLetter
  · have hSame : c.toLower = c := dif_neg hUpper
    rw [hSame]

theorem lowerChar_toLower (c : Char) : lowerChar c.toLower = lowerChar c :=
  congrArg Prod.fst (caseOf_toLower c)

theorem isCased_toLower (c : Char) : isCased c.toLower = isCased c :=
  congrArg (fun x => x.2.1) (caseOf_toLower c)

theorem isCaseIgnorable_toLower (c : Char) : isCaseIgnorable c.toLower = isCaseIgnorable c :=
  congrArg (fun x => x.2.2.1) (caseOf_toLower c)

theorem toLower_eq_sigma_iff {c : Char} : c.toLower = '\u03a3' ↔ c = '\u03a3' := by
  have hSigma : decide (c.toLower = '\u03a3') = decide (c = '\u03a3') :=
    congrArg (fun x => x.2.2.2) (caseOf_toLower c)
  exact decide_eq_decide.mp hSigma

theorem meetsCased_cons (c : Char) (cs : List Char) :
    meetsCased (c :: cs) = if isCaseIgnorable c then meetsCased cs else isCased c := by
  by_cases hIgnorable : isCaseIgnorable c = true
  · rw [meetsCased, List.dropWhile_cons_of_pos hIgnorable, if_pos hIgnorable, meetsCased]
  · rw [meetsCased, List.dropWhile_cons_of_neg hIgnorable, if_neg hIgnorable]

theorem meetsCased_map_toLower (cs : List Char) :
    meetsCased (cs.map Char.toLower) = meetsCased cs := by
  induction cs with
  | nil => rfl
  | cons c cs ih =>
    rw [List.map_cons, meetsCased_cons, meetsCased_cons, isCaseIgnorable_toLower, isCased_toLower,
      ih]

theorem lowerAfter_map_toLower (before cs : List Char) :
    lowerAfter (before.map Char.toLower) (cs.map Char.toLower) = lowerAfter before cs := by
  induction cs generalizing before with
  | nil => rfl
  | cons c cs ih =>
    rw [List.map_cons, lowerAfter, lowerAfter, meetsCased_map_toLower, meetsCased_map_toLower,
      lowerChar_toLower, ← List.map_cons, ih]
    simp only [toLower_eq_sigma_iff]

theorem lowercase_eq_of_sameName (h : sameName a b = true) : lowercase a = lowercase b := by
  have hFolded : a.toList.map Char.toLower = b.toList.map Char.toLower := sameName_eq_true_iff.mp h
  rw [lowercase, lowercase, ← lowerAfter_map_toLower, ← lowerAfter_map_toLower [] b.toList, hFolded]

theorem meetsCased_append_underscore (before more : List Char) :
    meetsCased (before ++ '_' :: more) = meetsCased before := by
  induction before with
  | nil =>
    have hOpen : isCaseIgnorable '_' = false ∧ isCased '_' = meetsCased [] := by
      decide +kernel
    rw [List.nil_append, meetsCased_cons, hOpen.1]
    exact hOpen.2
  | cons c cs ih => rw [List.cons_append, meetsCased_cons, meetsCased_cons, ih]

theorem lowerAfter_append_underscore (before more cs : List Char) :
    lowerAfter (before ++ '_' :: more) cs = lowerAfter before cs := by
  induction cs generalizing before with
  | nil => rfl
  | cons c cs ih =>
    rw [lowerAfter, lowerAfter, meetsCased_append_underscore, ← List.cons_append, ih]

/-- The prefix of an alias does not change the lower case of what follows it. -/
theorem lowercase_prefixed (s : String) : lowercase ("t_" ++ s) = "t_" ++ lowercase s := by
  have hChars : lowerAfter [] ("t_" ++ s).toList = 't' :: '_' :: lowerAfter [] s.toList := by
    have hText : ("t_" ++ s).toList = 't' :: '_' :: s.toList := String.toList_append
    rw [hText, lowerAfter, lowerAfter]
    exact congrArg ('t' :: '_' :: ·) (lowerAfter_append_underscore [] ['t'] s.toList)
  rw [lowercase, hChars, lowercase]
  apply String.toList_inj.mp
  rw [String.toList_append]
  simp only [String.toList_ofList]
  rfl

end TableGateway.Text
