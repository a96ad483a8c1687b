import TableGateway.Proofs.Json.Number

/-!
# Numbers that are read back

An integer of 64 bits is read back as it was. A finite double is read back as a double, though not
always as the same one.
-/

namespace TableGateway.Json

namespace NumberText

open Numeral Binary64

variable {t : NumberText} {ds : List Char} {point : Int} {negative : Bool} {x : Binary64}

def positional (negative : Bool) (ds : List Char) (point : Int) : NumberText :=
  if point ≤ 0 then ⟨negative, ['0'], List.replicate (-point).toNat '0' ++ ds, none⟩
  else if (ds.length : Int) ≤ point then
    ⟨negative, ds ++ List.replicate (point.toNat - ds.length) '0', ['0'], none⟩
  else ⟨negative, ds.take point.toNat, ds.drop point.toNat, none⟩

def scientific (negative : Bool) (ds : List Char) (point : Int) : NumberText :=
  ⟨negative, ds.take 1, ds.drop 1,
    some (decide (point - 1 < 0), Nat.toDigits 10 (point - 1).natAbs)⟩

def ofDecimal (negative : Bool) (d : Nat) (k : Int) : NumberText :=
  let ds := Nat.toDigits 10 d
  let point := ds.length + k
  if Number.layout.least ≤ point ∧ point ≤ Number.layout.greatest then positional negative ds point
  else scientific negative ds point

def ofNumber : Number → NumberText
  | .int n => ⟨decide (n < 0), Text.decimal n.natAbs, [], none⟩
  | .double x =>
    if x.size = 0 then positional x.isNegative ['0'] 1
    else ofDecimal x.isNegative x.shortest.1 x.shortest.2

theorem writeFraction_of_ne_nil (h : ds ≠ []) : writeFraction ds = '.' :: ds := by
  obtain ⟨c, cs, rfl⟩ := List.exists_cons_of_ne_nil h
  rfl

theorem write_positional (h : ds ≠ []) (negative : Bool) (point : Int) :
    (positional negative ds point).write =
      if negative then '-' :: Layout.positional ds point else Layout.positional ds point := by
  rw [positional, Layout.positional]
  split
  · have hFraction : List.replicate (-point).toNat '0' ++ ds ≠ [] := by simp [h]
    rw [write, writeUnsigned, writeFraction_of_ne_nil hFraction, writeExponent, List.append_nil]
    rfl
  · split
    · rw [write, writeUnsigned, writeFraction_of_ne_nil (List.cons_ne_nil _ _), writeExponent]
      rfl
    · next hInside =>
      have hFraction : ds.drop point.toNat ≠ [] := by
        rw [ne_eq, List.drop_eq_nil_iff]
        omega
      rw [write, writeUnsigned, writeFraction_of_ne_nil hFraction, writeExponent, List.append_nil,
        List.append_assoc]
      rfl

theorem write_scientific (h : ds ≠ []) (negative : Bool) (point : Int) :
    (scientific negative ds point).write =
      if negative then '-' :: Layout.scientific ds point else Layout.scientific ds point := by
  rw [scientific, write, writeUnsigned, writeExponent, Layout.scientific.eq_def]
  simp only [decide_eq_true_eq]
  cases ds with
  | nil => exact absurd rfl h
  | cons d rest => cases rest <;> rfl

theorem write_ofDecimal (negative : Bool) (d : Nat) (k : Int) :
    (ofDecimal negative d k).write =
      let ds := Nat.toDigits 10 d
      let point := ds.length + k
      let text :=
        if Number.layout.least ≤ point ∧ point ≤ Number.layout.greatest then
          Layout.positional ds point
        else Layout.scientific ds point
      if negative then '-' :: text else text := by
  rw [ofDecimal]
  simp only
  split
  · exact write_positional Nat.toDigits_ne_nil _ _
  · exact write_scientific Nat.toDigits_ne_nil _ _

theorem write_ofNumber (n : Number) : (ofNumber n).write = n.write := by
  cases n with
  | int n =>
    rw [ofNumber, write, writeUnsigned, Number.write, Text.signedDecimal]
    simp only [decide_eq_true_eq, writeFraction, writeExponent, List.append_nil]
  | double x =>
    rw [ofNumber, Number.write, Layout.write]
    split
    · next hZero => rw [write_positional (List.cons_ne_nil _ _)]
    · next hSize => rw [write_ofDecimal]

theorem isDigits_toDigits (n : Nat) : IsDigits (Nat.toDigits 10 n) := isDigit_of_mem_toDigits

theorem isDigits_replicate (n : Nat) : IsDigits (List.replicate n '0') := by
  intro c hc
  rw [(List.mem_replicate.mp hc).2]
  decide

theorem IsDigits.append {ds' : List Char} (h : IsDigits ds) (h' : IsDigits ds') :
    IsDigits (ds ++ ds') := by
  intro c hc
  exact (List.mem_append.mp hc).elim (h c) (h' c)

theorem wellFormed_positional (hSome : ds ≠ []) (hDigits : IsDigits ds)
    (hFirst : ds.head? = some '0' → ds = ['0'] ∧ point = 1) :
    (positional negative ds point).WellFormed := by
  have hZero : IsDigits ['0'] := by
    intro c hc
    rw [List.mem_singleton.mp hc]
    decide
  rw [positional]
  split
  · exact ⟨List.cons_ne_nil _ _, hZero, fun _ => rfl, (isDigits_replicate _).append hDigits, nofun⟩
  · split
    · refine ⟨by simp [hSome], hDigits.append (isDigits_replicate _), ?_, hZero, nofun⟩
      intro hHead
      obtain ⟨c, cs, rfl⟩ := List.exists_cons_of_ne_nil hSome
      obtain ⟨hOne, rfl⟩ := hFirst hHead
      rw [hOne]
      rfl
    · next hPositive hInside =>
      have hTake : IsDigits (ds.take point.toNat) := fun c hc => hDigits c (List.mem_of_mem_take hc)
      refine ⟨?_, hTake, ?_, fun c hc => hDigits c (List.mem_of_mem_drop hc), nofun⟩
      · rw [ne_eq, List.take_eq_nil_iff]
        rintro (hNone | hNone)
        · omega
        · exact hSome hNone
      · intro hHead
        rw [List.head?_take, if_neg (by omega)] at hHead
        obtain ⟨rfl, rfl⟩ := hFirst hHead
        exact absurd (Int.le_refl 1) hInside

theorem wellFormed_scientific (hSome : ds ≠ []) (hDigits : IsDigits ds) :
    (scientific negative ds point).WellFormed := by
  obtain ⟨c, cs, rfl⟩ := List.exists_cons_of_ne_nil hSome
  refine ⟨List.cons_ne_nil _ _, fun d hd => hDigits d (List.mem_of_mem_take hd), ?_,
    fun d hd => hDigits d (List.mem_of_mem_drop hd), ?_⟩
  · intro hHead
    rw [← Option.some.inj hHead]
    rfl
  · intro e he
    cases he
    exact ⟨Nat.toDigits_ne_nil, isDigits_toDigits _⟩

theorem eq_zero_of_head?_toDigits {n : Nat} (h : (Nat.toDigits 10 n).head? = some '0') :
    n = 0 := by
  by_contra hSome
  exact head?_toDigits hSome h

theorem wellFormed_ofDecimal {d : Nat} {k : Int} (h : d = 0 → k = 0) :
    (ofDecimal negative d k).WellFormed := by
  rw [ofDecimal]
  split
  · apply wellFormed_positional Nat.toDigits_ne_nil (isDigits_toDigits d)
    intro hHead
    have hZero := eq_zero_of_head?_toDigits hHead
    rw [hZero, h hZero]
    exact ⟨rfl, rfl⟩
  · exact wellFormed_scientific Nat.toDigits_ne_nil (isDigits_toDigits d)

theorem wellFormed_ofNumber (n : Number) : (ofNumber n).WellFormed := by
  cases n with
  | int n =>
    refine ⟨Nat.toDigits_ne_nil, isDigits_toDigits _, ?_, nofun, nofun⟩
    intro hHead
    have hZero : n.natAbs = 0 := eq_zero_of_head?_toDigits hHead
    rw [ofNumber, hZero]
    rfl
  | double x =>
    rw [ofNumber]
    split
    · apply wellFormed_positional (List.cons_ne_nil _ _) (isDigits_toDigits 0)
      intro _
      exact ⟨rfl, rfl⟩
    · next hSize =>
      apply wellFormed_ofDecimal
      intro hZero
      rcases x.shortest_readsBack with hNone | hReads
      · rw [hNone]
      · exact absurd hZero (ne_zero_of_readsBack hSize hReads)

/-- The power of ten that the exponent part stands for. -/
def power (t : NumberText) : Int :=
  match t.exponent with
  | none => 0
  | some (negative, digits) => if negative then -ofDigits digits else ofDigits digits

theorem isSome_double? (hExponent : ∀ e ∈ t.exponent, e.1 = true ∨ ofDigits e.2 ≤ maxExponent)
    (hRoom : t.kept.1 ≠ 0 → 0 ≤ t.kept.2 + t.power →
      LeavesRoom t.kept.1 (t.kept.2 + t.power).toNat) : t.double?.isSome = true := by
  have hScaled := isSome_scaled? hRoom
  rw [double?]
  simp only [Option.isSome_map]
  rw [power] at hScaled
  split
  · next hNone =>
    rw [hNone] at hScaled
    rw [← Int.add_zero t.kept.2]
    exact hScaled
  · next sign digits hSome =>
    rw [hSome] at hScaled
    simp only at hScaled
    split
    · cases sign with
      | false => exact hScaled
      | true => exact hScaled
    · next hLarge =>
      have hSign := (hExponent _ (Option.mem_def.mpr hSome)).resolve_right hLarge
      simp only at hSign
      rw [if_neg (by simp [hSign])]
      rfl

/-- What is kept of digits that are kept as a whole before the point. -/
theorem kept_of_whole (h : ofDigits t.whole ≤ maxKept) :
    t.kept.1 ≤ maxKept ∧ ∃ n ≤ t.fraction.length, t.kept.2 = -(n : Int) ∧
      t.kept.1 = ofDigits (t.whole ++ t.fraction.take n) := by
  have hAll : (keep 0 t.whole).2 = t.whole.length := by
    apply keep_all
    rw [Nat.zero_mul, Nat.zero_add]
    exact h
  have hWhole : (keep 0 t.whole).1 = ofDigits t.whole := by
    have hSpec := (keep_spec 0 t.whole).2
    rw [hAll, List.take_length, Nat.zero_mul, Nat.zero_add] at hSpec
    exact hSpec
  obtain ⟨hLength, hKept⟩ := keep_spec (keep 0 t.whole).1 t.fraction
  have hTaken : (t.fraction.take (keep (keep 0 t.whole).1 t.fraction).2).length =
      (keep (keep 0 t.whole).1 t.fraction).2 := by
    rw [List.length_take, Nat.min_eq_left hLength]
  refine ⟨keep_le (keep_le (Nat.zero_le _) _) _, _, hLength, ?_, ?_⟩
  · rw [kept]
    simp only [hAll]
    omega
  · rw [ofDigits_append, hTaken, ← hWhole]
    exact hKept

theorem ofDigits_le_maxKept (hDigits : IsDigits ds) (hLength : ds.length ≤ 16) :
    ofDigits ds ≤ maxKept := by
  have hLess := ofDigits_lt ds hDigits
  have hPower : Nat.pow 10 ds.length ≤ 10 ^ 16 := Nat.pow_le_pow_right (by decide) hLength
  have hKept : 10 ^ 16 ≤ maxKept := by decide
  omega

/-- Without an exponent part at most sixteen digits stand before the point. -/
theorem isSome_double?_of_short (h : t.WellFormed) (hLength : t.whole.length ≤ 16)
    (hNone : t.exponent = none) : t.double?.isSome = true := by
  obtain ⟨hKept, n, -, hScale, -⟩ := kept_of_whole (ofDigits_le_maxKept h.whole hLength)
  apply isSome_double?
  · intro e he
    rw [hNone] at he
    cases he
  · intro _ hWhole
    have hPower : t.power = 0 := by
      rw [power, hNone]
    have hZero : (t.kept.2 + t.power).toNat = 0 := by omega
    rw [hZero]
    exact leavesRoom_of_le_maxKept hKept

theorem length_whole_positional (negative : Bool) (ds : List Char) (hPoint : point ≤ 16) :
    (positional negative ds point).whole.length ≤ 16 ∧
      (positional negative ds point).exponent = none := by
  rw [positional]
  split
  · exact ⟨(by decide : 1 ≤ 16), rfl⟩
  · split
    · refine ⟨?_, rfl⟩
      rw [List.length_append, List.length_replicate]
      omega
    · refine ⟨?_, rfl⟩
      rw [List.length_take]
      omega

theorem leavesRoom_of_bound {m e : Nat} (hScale : x.scale ≤ topScale)
    (hTop : x.scale = topScale → x.significand + 3 ≤ 2 ^ 53)
    (hBound : 2 * (m * 10 ^ e * unit) ≤ (2 * x.significand + 1) * 2 ^ x.scale) :
    LeavesRoom m e := by
  have hSignificand := x.significand_lt
  rw [LeavesRoom]
  generalize 2 * (m * 10 ^ e * unit) = n at hBound ⊢
  have hPositive : 0 < 2 ^ topScale := Nat.two_pow_pos topScale
  rcases Nat.lt_or_eq_of_le hScale with hBelow | hEqual
  · have hPowers : 2 * 2 ^ x.scale ≤ 2 ^ topScale := by
      rw [Nat.mul_comm, ← Nat.pow_succ]
      exact Nat.pow_le_pow_right (by decide) hBelow
    have hProduct : (2 * x.significand + 1) * 2 ^ x.scale ≤ (2 ^ 54 - 1) * 2 ^ x.scale :=
      Nat.mul_le_mul_right _ (by omega)
    generalize (2 : Nat) ^ topScale = top at hPowers hPositive ⊢
    generalize (2 * x.significand + 1) * 2 ^ x.scale = product at hBound hProduct
    omega
  · have hShort := hTop hEqual
    have hProduct : (2 * x.significand + 1) * 2 ^ x.scale ≤ (2 ^ 54 - 5) * 2 ^ x.scale :=
      Nat.mul_le_mul_right _ (by omega)
    rw [hEqual] at hBound hProduct
    generalize (2 : Nat) ^ topScale = top at hBound hProduct hPositive ⊢
    generalize (2 * x.significand + 1) * top = product at hBound hProduct
    omega

theorem power_scientific (negative : Bool) (ds : List Char) (point : Int) :
    (scientific negative ds point).power = point - 1 := by
  rw [scientific, power]
  simp only [ofDigits_toDigits, decide_eq_true_eq]
  split <;> omega

theorem isSome_double?_scientific {d : Nat} {k : Int} (hd : d ≠ 0) (hReads : x.readsBack d k = true)
    (hScale : x.scale ≤ topScale) (hTop : x.scale = topScale → x.significand + 3 ≤ 2 ^ 53) :
    (scientific negative (Nat.toDigits 10 d) ((Nat.toDigits 10 d).length + k)).double?.isSome =
      true := by
  have hDigits := isDigits_toDigits d
  have hLength : 0 < (Nat.toDigits 10 d).length := Nat.length_toDigits_pos
  have hValue := ofDigits_toDigits d
  have hLarge : 1 * 10 ^ ((Nat.toDigits 10 d).length - 1) ≤ d := by
    rw [Nat.one_mul]
    exact pow_length_toDigits_le hd
  generalize Nat.toDigits 10 d = ds at hDigits hLength hValue hLarge ⊢
  have hWhole : ofDigits (ds.take 1) ≤ maxKept := by
    apply ofDigits_le_maxKept fun c hc => hDigits c (List.mem_of_mem_take hc)
    rw [List.length_take]
    omega
  obtain ⟨-, n, hn, hPlaces, hKept⟩ :=
    kept_of_whole (t := scientific negative ds (ds.length + k)) hWhole
  change n ≤ (ds.drop 1).length at hn
  change _ = ofDigits (ds.take 1 ++ (ds.drop 1).take n) at hKept
  rw [List.length_drop] at hn
  rw [← List.take_add] at hKept
  apply isSome_double?
  · intro e he
    cases he
    simp only [decide_eq_true_eq, ofDigits_toDigits]
    rcases Int.lt_or_le (ds.length + k - 1) 0 with hNegative | hPositive
    · exact .inl hNegative
    · right
      have hExponent : ((ds.length - 1 : Nat) : Int) + k = ds.length + k - 1 := by omega
      have hBound := bound_of_readsBack hReads hLarge (by omega)
      have hRoom := (leavesRoom_of_bound hScale hTop hBound).exponent_le Nat.one_ne_zero
      have hMaximum : 308 ≤ maxExponent := by decide
      omega
  · intro _ hPositive
    have hSum : (scientific negative ds (ds.length + k)).kept.2 +
        (scientific negative ds (ds.length + k)).power =
          ((ds.length - (1 + n) : Nat) : Int) + k := by
      rw [hPlaces, power_scientific]
      omega
    rw [hSum] at hPositive ⊢
    apply leavesRoom_of_bound hScale hTop
    apply bound_of_readsBack hReads _ hPositive
    rw [hKept]
    calc
      ofDigits (ds.take (1 + n)) * 10 ^ (ds.length - (1 + n)) ≤ ofDigits ds := ofDigits_take ds _
      _ = d := hValue

/-- The two greatest doubles of either sign leave no room, but are not lifted either. -/
theorem isSome_double?_of_top
    (h : x.magnitude = infinite - 1 ∨ x.magnitude = infinite - 2) :
    (ofNumber (.double x)).double?.isSome = true := by
  have hAll : ∀ negative, ∀ m ∈ [infinite - 1, infinite - 2],
      (ofNumber (.double (ofMagnitude negative m))).double?.isSome = true := by
    decide +kernel
  have hx := x.eq_ofMagnitude
  rw [hx]
  apply hAll
  simpa using h

theorem isSome_double?_ofNumber (h : x.isFinite = true) :
    (ofNumber (.double x)).double?.isSome = true := by
  have hForm := wellFormed_ofNumber (.double x)
  by_cases hTop : x.scale = topScale ∧ 2 ^ 53 < x.significand + 3
  · exact isSome_double?_of_top (magnitude_of_top hTop.1 hTop.2)
  have hTop' : x.scale = topScale → x.significand + 3 ≤ 2 ^ 53 := by
    intro hScale
    exact Nat.le_of_not_lt fun hLarge => hTop ⟨hScale, hLarge⟩
  rw [ofNumber] at hForm ⊢
  split at hForm
  · next hZero =>
    rw [if_pos hZero]
    obtain ⟨hLength, hNone⟩ :=
      length_whole_positional x.isNegative ['0'] (by decide : (1 : Int) ≤ 16)
    exact isSome_double?_of_short hForm hLength hNone
  · next hSize =>
    rw [if_neg hSize]
    rw [ofDecimal] at hForm ⊢
    split at hForm
    · next hLayout =>
      rw [if_pos hLayout]
      obtain ⟨hLength, hNone⟩ := length_whole_positional x.isNegative _ hLayout.2
      exact isSome_double?_of_short hForm hLength hNone
    · next hLayout =>
      rw [if_neg hLayout]
      rcases x.shortest_readsBack with hNone | hReads
      · rw [hNone] at hLayout
        exact absurd (by decide) hLayout
      · exact isSome_double?_scientific (ne_zero_of_readsBack hSize hReads) hReads
          (scale_le h) hTop'

theorem isInteger_double (x : Binary64) : (ofNumber (.double x)).isInteger = false := by
  have hPositional (negative : Bool) {ds : List Char} (point : Int) (h : ds ≠ []) :
      (positional negative ds point).isInteger = false := by
    rw [positional]
    split
    · simp [isInteger, h]
    · split
      · rfl
      · next hInside =>
        have hFraction : ds.drop point.toNat ≠ [] := by
          rw [ne_eq, List.drop_eq_nil_iff]
          omega
        simp [isInteger, hFraction]
  rw [ofNumber]
  split
  · exact hPositional _ _ (List.cons_ne_nil _ _)
  · rw [ofDecimal]
    split
    · exact hPositional _ _ Nat.toDigits_ne_nil
    · simp [isInteger, scientific]

end NumberText

namespace Number

/-- The numbers that a text can denote: integers of 64 bits, and finite doubles. -/
def InRange : Number → Prop
  | .int n => -2 ^ 63 ≤ n ∧ n < 2 ^ 64
  | .double x => x.isFinite = true

/-- What a number is read back as. -/
def reread? (n : Number) : Option Number := (NumberText.ofNumber n).number?

theorem reread?_int {n : Int} (h : InRange (.int n)) : reread? (.int n) = some (.int n) := by
  obtain ⟨hLow, hHigh⟩ := h
  have hDigits : Numeral.ofDigits (Text.decimal n.natAbs) = n.natAbs :=
    Numeral.ofDigits_toDigits n.natAbs
  have hKept : NumberText.maxKept = 2 ^ 64 - 1 := by decide
  have hFits : n.natAbs ≤ NumberText.maxKept := by omega
  have hInteger : (NumberText.ofNumber (.int n)).isInteger = true := by
    rw [NumberText.isInteger, NumberText.ofNumber]
    simp [hDigits, hFits]
  have hPower : Nat.pow 2 63 = 2 ^ 63 := rfl
  rw [reread?, NumberText.number?, hInteger, hPower]
  rw [NumberText.ofNumber]
  simp only [hDigits, true_and, Bool.not_eq_true', decide_eq_false_iff_not]
  split
  · congr 2
    omega
  · rw [if_pos (by omega)]
    congr 2
    omega

theorem reread?_double {x : Binary64} (h : InRange (.double x)) :
    ∃ y, reread? (.double x) = some (.double y) := by
  obtain ⟨y, hy⟩ := Option.isSome_iff_exists.mp (NumberText.isSome_double?_ofNumber h)
  refine ⟨y, ?_⟩
  rw [reread?, NumberText.number?, NumberText.isInteger_double, hy]
  rfl

theorem isSome_reread? {n : Number} (h : n.InRange) : n.reread?.isSome = true := by
  cases n with
  | int n =>
    rw [reread?_int h]
    rfl
  | double x =>
    obtain ⟨y, hy⟩ := reread?_double h
    rw [hy]
    rfl

theorem scanNumber_write (n : Number) {rest : List Char} (hStops : Text.Stops isNumberChar rest) :
    scanNumber (n.write ++ rest) = some (NumberText.ofNumber n, rest) := by
  rw [← NumberText.write_ofNumber]
  exact NumberText.scanNumber_append (NumberText.wellFormed_ofNumber n)
    (NumberText.spells_write _) hStops

end Number

end TableGateway.Json
