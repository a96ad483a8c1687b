import Mathlib.Data.List.Nodup
import Mathlib.Data.List.Perm.Subperm
import TableGateway.Proofs.Number.Digits
import TableGateway.Sql.Parameters

/-!
# Names of parameters

A new parameter gets a name that no other one has, whatever the case of its letters. The search for
it stops in time: there are more candidates than names.
-/

namespace TableGateway

namespace Text

theorem isDigit_of_mem_decimal {n : Nat} {c : Char} (h : c ∈ decimal n) : c.isDigit = true :=
  Numeral.isDigit_of_mem_toDigits c h

theorem decimal_ne_cons {n : Nat} {c : Char} {cs : List Char} (h : c.isDigit = false) :
    decimal n ≠ c :: cs := by
  intro hEq
  have hDigit := isDigit_of_mem_decimal (n := n) (c := c) (hEq ▸ List.mem_cons_self)
  rw [h] at hDigit
  cases hDigit

theorem decimal_ne_nil (n : Nat) : decimal n ≠ [] := Nat.toDigits_ne_nil

theorem decimal_injective : Function.Injective decimal := by
  intro m n h
  rw [← Nat.ofDigitChars_ten_toDigits (n := m), ← Nat.ofDigitChars_ten_toDigits (n := n)]
  exact congrArg (Nat.ofDigitChars 10 · 0) h

theorem map_toLower_decimal (n : Nat) : (decimal n).map Char.toLower = decimal n := by
  have hSame : ∀ c ∈ decimal n, c.toLower = c :=
    fun c hc => Numeral.toLower_of_isDigit (isDigit_of_mem_decimal hc)
  rw [List.map_congr_left hSame, List.map_id']

end Text

namespace Parameters

theorem isNameChar_of_isDigit {c : Char} (h : c.isDigit = true) : isNameChar c = true := by
  simp [isNameChar, Char.isAlphanum, h]

theorem isNameChar_of_mem_baseName {hint : String} {c : Char} (h : c ∈ baseName hint) :
    isNameChar c = true := by
  have hHint : ∀ c ∈ hint.toList.map (fun c => if isNameChar c then c else '_'),
      isNameChar c = true := by
    intro c hc
    obtain ⟨x, -, rfl⟩ := List.mem_map.mp hc
    split
    · assumption
    · decide
  rw [baseName] at h
  split at h
  · rw [List.mem_singleton.mp h]
    decide
  · split at h
    · rcases List.mem_cons.mp h with rfl | h
      · decide
      · exact hHint c h
    · exact hHint c h

theorem isNameChar_of_mem_freshName {ps : Parameters} {hint : String} {c : Char}
    (h : c ∈ (ps.freshName hint).toList) : isNameChar c = true := by
  rw [freshName, candidate, String.toList_ofList] at h
  split at h
  · exact isNameChar_of_mem_baseName h
  · rcases List.mem_append.mp h with h | h
    · exact isNameChar_of_mem_baseName h
    · rcases List.mem_cons.mp h with rfl | h
      · decide
      · exact isNameChar_of_isDigit (Text.isDigit_of_mem_decimal h)

theorem lowered_candidate_injective (base : List Char) :
    Function.Injective fun n => Text.lowered (candidate base n) := by
  have hShape (n : Nat) : (Text.lowered (candidate base n)).toList =
      base.map Char.toLower ++ if n = 0 then [] else '_' :: Text.decimal (n + 1) := by
    rw [Text.lowered, Text.folded, candidate, String.toList_ofList, String.toList_ofList]
    split
    · simp
    · rw [List.map_append, List.map_cons, Text.map_toLower_decimal]
      rfl
  intro m n h
  have hTail := congrArg String.toList h
  simp only [hShape, List.append_cancel_left_eq] at hTail
  by_cases hm : m = 0 <;> by_cases hn : n = 0 <;> simp [hm, hn] at hTail
  · rw [hm, hn]
  · exact Nat.succ.inj (Text.decimal_injective hTail)

/-- All candidates before the one that is found are taken, and it is free unless the search gave
up. -/
theorem firstFree_spec (base : List Char) (taken : List String) (tries n : Nat) :
    n ≤ firstFree base taken tries n ∧
      (∀ k, n ≤ k → k < firstFree base taken tries n → Text.lowered (candidate base k) ∈ taken) ∧
      (firstFree base taken tries n < n + tries →
        Text.lowered (candidate base (firstFree base taken tries n)) ∉ taken) ∧
      firstFree base taken tries n ≤ n + tries := by
  induction tries generalizing n with
  | zero =>
    rw [firstFree]
    exact ⟨Nat.le_refl n, by omega, by omega, Nat.le_refl n⟩
  | succ tries ih =>
    rw [firstFree]
    split
    · next hTaken =>
      obtain ⟨hLe, hBefore, hFree, hBound⟩ := ih (n + 1)
      refine ⟨by omega, fun k hk hLt => ?_, fun hLt => hFree (by omega), by omega⟩
      rcases Nat.eq_or_lt_of_le hk with rfl | hk
      · simpa using hTaken
      · exact hBefore k hk hLt
    · next hFree =>
      exact ⟨Nat.le_refl n, by omega, fun _ => by simpa using hFree, by omega⟩

theorem lowered_firstFree_not_mem (base : List Char) (taken : List String) :
    Text.lowered (candidate base (firstFree base taken taken.length 0)) ∉ taken := by
  obtain ⟨-, hBefore, hFree, hBound⟩ := firstFree_spec base taken taken.length 0
  rcases Nat.lt_or_ge (firstFree base taken taken.length 0) (0 + taken.length) with hLt | hGe
  · exact hFree hLt
  · intro hTaken
    have hAll : (List.range (taken.length + 1)).map (fun n => Text.lowered (candidate base n)) ⊆
        taken := by
      intro name hName
      obtain ⟨k, hk, rfl⟩ := List.mem_map.mp hName
      rw [List.mem_range] at hk
      rcases Nat.lt_or_ge k (firstFree base taken taken.length 0) with hLt | hLast
      · exact hBefore k (Nat.zero_le k) hLt
      · have hEq : k = firstFree base taken taken.length 0 := by omega
        rwa [hEq]
    have hNodup := List.Nodup.map (lowered_candidate_injective base)
      (List.nodup_range (n := taken.length + 1))
    have hLength := (hNodup.subperm hAll).length_le
    rw [List.length_map, List.length_range] at hLength
    omega

theorem lowered_freshName_not_mem (ps : Parameters) (hint : String) :
    Text.lowered (ps.freshName hint) ∉ ps.names.map Text.lowered := by
  have hSize : ps.size = (ps.names.map Text.lowered).length := by simp [size, names]
  rw [freshName, hSize]
  exact lowered_firstFree_not_mem _ _

/-- No two names are the same, whatever the case of their letters. -/
def Distinct (ps : Parameters) : Prop := (ps.names.map Text.lowered).Nodup

theorem distinct_nil : Distinct {} := List.nodup_nil

theorem Distinct.push {ps : Parameters} (h : ps.Distinct) (hint : String) (v : BoundValue) :
    (ps.push hint v).Distinct := by
  rw [Distinct, names_push, List.map_append, List.map_singleton, ← List.concat_eq_append]
  exact List.Nodup.concat (lowered_freshName_not_mem ps hint) h

def pushAll (ps : Parameters) (entries : List (String × BoundValue)) : Parameters :=
  entries.foldl (fun ps entry => ps.push entry.1 entry.2) ps

theorem values_pushAll (ps : Parameters) (entries : List (String × BoundValue)) :
    (ps.pushAll entries).values = ps.values ++ entries.map Prod.snd := by
  induction entries generalizing ps with
  | nil => simp [pushAll]
  | cons entry entries ih =>
    change ((ps.push entry.1 entry.2).pushAll entries).values = _
    rw [ih, values_push, List.append_assoc]
    rfl

theorem Distinct.pushAll {ps : Parameters} (h : ps.Distinct)
    (entries : List (String × BoundValue)) : (ps.pushAll entries).Distinct :=
  List.foldlRecOn entries _ h fun _ hDistinct entry _ => hDistinct.push entry.1 entry.2

end Parameters

end TableGateway
