import TableGateway.Proofs.Number.Numeral
import TableGateway.Proofs.Query.Scope
import TableGateway.Settings

/-!
# Limits and offsets

Limit and offset are read as integers of any size. That they are cut to 64 bits at first makes no
difference: the page is the one that the exact integers ask for, within the bounds of the settings.
-/

namespace TableGateway

variable {limits : PagingLimits} {key value : String} {o o' : QueryOptions}
  {ps : List (String × String)}

/-- Limits with which there is a page for every query. They are integers of 64 bits. -/
structure PagingLimits.IsSound (limits : PagingLimits) : Prop where
  positive : 1 ≤ limits.least
  ordered : limits.least ≤ limits.greatest
  fits : limits.greatest ≤ Numeral.maxInt64

namespace Settings

open Outcome (bind_eq_ok_iff)

theorem Variables.number_eq_ok {α : Type} {vs : Variables} {default n : α}
    {read : List Char → Option α} (h : vs.number key default read = .ok n) :
    n = default ∨ ∃ cs, read cs = some n := by
  rw [number] at h
  split at h
  · exact .inl (Except.ok.inj h).symm
  · split at h
    · next hRead =>
      cases h
      exact .inr ⟨_, hRead⟩
    · cases h

theorem isSound_of_ofVariables {vs : Variables} {s : Settings} (h : ofVariables vs = .ok s) :
    s.limits.IsSound := by
  obtain ⟨url, -, h⟩ := bind_eq_ok_iff.mp h
  obtain ⟨found, hFound, h⟩ := bind_eq_ok_iff.mp h
  obtain ⟨timeout, -, h⟩ := bind_eq_ok_iff.mp h
  obtain ⟨most, -, h⟩ := bind_eq_ok_iff.mp h
  obtain ⟨trust, -, h⟩ := bind_eq_ok_iff.mp h
  cases h
  obtain ⟨least, -, hFound⟩ := bind_eq_ok_iff.mp hFound
  obtain ⟨greatest, hGreatest, hFound⟩ := bind_eq_ok_iff.mp hFound
  have hFits : greatest ≤ Numeral.maxInt64 := by
    obtain rfl | ⟨cs, hRead⟩ := Variables.number_eq_ok hGreatest
    · decide
    · exact (Numeral.readInt64?_eq_some_iff.mp hRead).2.2
  split at hFound
  · cases hFound
  · cases hFound
    exact ⟨by dsimp only; omega, by dsimp only; omega, hFits⟩

end Settings

namespace Paging

/-- The page that is asked for, with integers of any size. An offset is never greater than the
greatest integer of 64 bits. -/
def exact (limits : PagingLimits) (limit offset : Int) : Paging where
  limit := if limit ≤ 0 then limits.least else if limits.greatest < limit then limits.greatest
    else limit
  offset := min (max offset 0) Numeral.maxInt64

theorem compile_saturate (h : limits.IsSound) (limit offset : Option Int) :
    compile limits (limit.map QueryOptions.saturate) (offset.map QueryOptions.saturate) =
      exact limits (limit.getD 0) (offset.getD 0) := by
  have hZero : QueryOptions.saturate 0 = 0 := by decide
  have hGetD (n : Option Int) :
      (n.map QueryOptions.saturate).getD 0 = QueryOptions.saturate (n.getD 0) := by
    cases n with
    | none => exact hZero.symm
    | some n => rfl
  obtain ⟨-, -, hFits⟩ := h
  rw [compile, exact, hGetD, hGetD]
  simp only [QueryOptions.saturate, Numeral.minInt64, Numeral.maxInt64, mk.injEq] at hFits ⊢
  omega

theorem exact_bounds (h : limits.IsSound) (limit offset : Int) :
    1 ≤ (exact limits limit offset).limit ∧ (exact limits limit offset).limit ≤ limits.greatest ∧
      0 ≤ (exact limits limit offset).offset := by
  obtain ⟨hPositive, hOrdered, hFits⟩ := h
  simp only [exact, Numeral.maxInt64]
  omega

end Paging

/-- The parameters that are numbers. -/
inductive PagingKey
  | limit | offset

namespace PagingKey

def name : PagingKey → String
  | .limit => "limit"
  | .offset => "offset"

/-- The text that counts for the key, which may be written in any case: the last one. -/
def text? (k : PagingKey) (ps : List (String × String)) : Option String :=
  (ps.reverse.find? fun p => Text.lowered p.1 = k.name).map Prod.snd

theorem text?_concat (k : PagingKey) (ps : List (String × String)) (p : String × String) :
    k.text? (ps ++ [p]) = if Text.lowered p.1 = k.name then some p.2 else k.text? ps := by
  rw [text?, List.reverse_append, List.reverse_singleton, List.singleton_append, List.find?_cons]
  by_cases h : Text.lowered p.1 = k.name
  · simp [h]
  · simp [h, text?]

/-- What is asked for under the key, if anything is. -/
inductive Asks (k : PagingKey) (ps : List (String × String)) : Option Int → Prop
  | number {s : String} {n : Int} (hText : k.text? ps = some s)
      (hInteger : Numeral.IsInteger (Text.trim s.toList) n) : Asks k ps (some n)
  | nothing (hText : k.text? ps = none) : Asks k ps none

theorem Asks.eq_of_text? {k : PagingKey} {n : Option Int} {s : String} (h : k.Asks ps n)
    (hText : k.text? ps = some s) : n = Numeral.readInteger? (Text.trim s.toList) := by
  cases h with
  | number hFound hInteger =>
    cases hText.symm.trans hFound
    exact (Numeral.readInteger?_eq_some_iff.mpr hInteger).symm
  | nothing hFound => cases hText.symm.trans hFound

theorem asks_concat_iff {k : PagingKey} {p : String × String} {n : Option Int} :
    k.Asks (ps ++ [p]) n ↔
      if Text.lowered p.1 = k.name then ∃ m, Numeral.IsInteger (Text.trim p.2.toList) m ∧ n = some m
      else k.Asks ps n := by
  have hText := k.text?_concat ps p
  split
  · next hKey =>
    rw [if_pos hKey] at hText
    constructor
    · rintro (⟨hFound, hInteger⟩ | hFound)
      · cases hText.symm.trans hFound
        exact ⟨_, hInteger, rfl⟩
      · cases hText.symm.trans hFound
    · rintro ⟨m, hInteger, rfl⟩
      exact .number hText hInteger
  · next hKey =>
    rw [if_neg hKey] at hText
    constructor
    · rintro (⟨hFound, hInteger⟩ | hFound)
      · exact .number (hText ▸ hFound) hInteger
      · exact .nothing (hText ▸ hFound)
    · rintro (⟨hFound, hInteger⟩ | hFound)
      · exact .number (hText.trans hFound) hInteger
      · exact .nothing (hText.trans hFound)

end PagingKey

namespace QueryOptions

open PagingKey

def integer? (o : QueryOptions) : PagingKey → Option Int
  | .limit => o.limit
  | .offset => o.offset

def withInteger (o : QueryOptions) (n : Int) : PagingKey → QueryOptions
  | .limit => { o with limit := some n }
  | .offset => { o with offset := some n }

/-- Where the parameter is a number, its text is an integer. -/
def IsReadable (p : String × String) : Prop :=
  ∀ k : PagingKey, Text.lowered p.1 = k.name →
    ∃ n, Numeral.IsInteger (Text.trim p.2.toList) n

theorem readPaging_eq_ok_iff {n : Int} :
    readPaging key value = .ok n ↔
      ∃ m, Numeral.IsInteger (Text.trim value.toList) m ∧ saturate m = n := by
  simp only [← Numeral.readInteger?_eq_some_iff]
  rw [readPaging]
  cases Numeral.readInteger? (Text.trim value.toList) with
  | some m => simp
  | none => simp

theorem readPaging_eq_error_iff {e : QueryError} :
    readPaging key value = .error e ↔
      (¬ ∃ m, Numeral.IsInteger (Text.trim value.toList) m) ∧ e = .invalidPaging key value := by
  simp only [← Numeral.readInteger?_eq_some_iff]
  rw [readPaging]
  cases Numeral.readInteger? (Text.trim value.toList) with
  | some m => simp
  | none => simp [eq_comm]

theorem add_of_name {k : PagingKey} (h : Text.lowered key = k.name) :
    add o (key, value) = (readPaging k.name value).map fun n => o.withInteger n k := by
  cases k with
  | limit | offset =>
    rw [add, h]
    rfl

theorem add_of_other (o : QueryOptions) (value : String)
    (h : ∀ k : PagingKey, Text.lowered key ≠ k.name) :
    ∃ o', add o (key, value) = .ok o' ∧ ∀ k, o'.integer? k = o.integer? k := by
  have hLimit := h .limit
  have hOffset := h .offset
  rw [add.eq_def]
  dsimp only
  split
  · exact ⟨_, rfl, fun k => by cases k <;> rfl⟩
  · exact ⟨_, rfl, fun k => by cases k <;> rfl⟩
  · exact ⟨_, rfl, fun k => by cases k <;> rfl⟩
  · exact ⟨_, rfl, fun k => by cases k <;> rfl⟩
  · next hKey => exact absurd hKey hLimit
  · next hKey => exact absurd hKey hOffset
  · exact ⟨_, rfl, fun k => rfl⟩

theorem integer?_withInteger (o : QueryOptions) (n : Int) (k k' : PagingKey) :
    (o.withInteger n k).integer? k' = if k.name = k'.name then some n else o.integer? k' := by
  cases k <;> cases k' <;> rfl

/-- What one parameter does: it is refused when it is a number that cannot be read, and otherwise
what is asked for under its key is replaced. -/
theorem add_cases (o : QueryOptions) (p : String × String) :
    (∃ o', add o p = .ok o' ∧ IsReadable p ∧
      ∀ ps, (∀ k : PagingKey, ∃ n, k.Asks ps n ∧ o.integer? k = n.map saturate) →
        ∀ k : PagingKey, ∃ n, k.Asks (ps ++ [p]) n ∧ o'.integer? k = n.map saturate) ∨
      ∃ k : PagingKey, add o p = .error (.invalidPaging k.name p.2) ∧ Text.lowered p.1 = k.name ∧
        ¬ IsReadable p := by
  obtain ⟨key, value⟩ := p
  by_cases hName : ∃ k : PagingKey, Text.lowered key = k.name
  · obtain ⟨k, hName⟩ := hName
    rw [add_of_name hName]
    cases hRead : readPaging k.name value with
    | ok n =>
      obtain ⟨m, hInteger, rfl⟩ := readPaging_eq_ok_iff.mp hRead
      refine .inl ⟨_, rfl, fun _ _ => ⟨m, hInteger⟩, fun ps hAsks k' => ?_⟩
      simp only [PagingKey.asks_concat_iff, integer?_withInteger, hName]
      split
      · exact ⟨some m, ⟨m, hInteger, rfl⟩, rfl⟩
      · exact hAsks k'
    | error e =>
      obtain ⟨hNone, rfl⟩ := readPaging_eq_error_iff.mp hRead
      exact .inr ⟨k, rfl, hName, fun hReadable => hNone (hReadable k hName)⟩
  · have hOther := not_exists.mp hName
    obtain ⟨o', hAdd, hSame⟩ := add_of_other o value hOther
    refine .inl ⟨o', hAdd, fun k hKey => absurd hKey (hOther k), fun ps hAsks k => ?_⟩
    simp only [PagingKey.asks_concat_iff, if_neg (hOther k), hSame]
    exact hAsks k

theorem ofParameters_concat (ps : List (String × String)) (p : String × String) :
    ofParameters (ps ++ [p]) = ofParameters ps >>= fun o => add o p := by
  rw [ofParameters, List.foldlM_append]
  exact bind_congr fun o => bind_pure _

/-- What has been read of the parameters so far. -/
inductive Reads (ps : List (String × String)) : Except QueryError QueryOptions → Prop
  | taken {o : QueryOptions} (hReadable : ∀ p ∈ ps, IsReadable p)
      (hAsks : ∀ k : PagingKey, ∃ n, k.Asks ps n ∧ o.integer? k = n.map saturate) :
      Reads ps (.ok o)
  | refused {p : String × String} {k : PagingKey} (hMem : p ∈ ps) (hKey : Text.lowered p.1 = k.name)
      (hUnreadable : ¬ IsReadable p) : Reads ps (.error (.invalidPaging k.name p.2))

theorem reads_ofParameters (ps : List (String × String)) : Reads ps (ofParameters ps) := by
  induction ps using List.reverseRecOn with
  | nil =>
    refine .taken (o := {}) (List.forall_mem_nil _) fun k => ⟨none, .nothing rfl, ?_⟩
    cases k <;> rfl
  | append_singleton ps p ih =>
    rw [ofParameters_concat]
    generalize ofParameters ps = outcome at ih
    cases ih with
    | @taken o hReadable hAsks =>
      obtain ⟨o', hAdd, hOne, hNext⟩ | ⟨k, hAdd, hKey, hUnreadable⟩ := add_cases o p
      · rw [Outcome.ok_bind, hAdd]
        refine .taken (fun q hq => ?_) (hNext ps hAsks)
        obtain hq | rfl := List.mem_append.mp hq |>.imp_right List.mem_singleton.mp
        · exact hReadable q hq
        · exact hOne
      · rw [Outcome.ok_bind, hAdd]
        exact .refused (List.mem_append_right ps (List.mem_singleton_self p)) hKey hUnreadable
    | refused hMem hKey hUnreadable =>
      exact .refused (List.mem_append_left [p] hMem) hKey hUnreadable

/-- A query is taken exactly when its limits and offsets are integers. The page is then the one that
these integers ask for, however large they are, and it has at least one row and no more than the
settings allow. -/
theorem pages_are_exact {limits : PagingLimits}
    (h : limits.IsSound ∨ ∃ vs s, Settings.ofVariables vs = .ok s ∧ s.limits = limits)
    (ps : List (String × String)) :
    ((∃ o, ofParameters ps = .ok o) ↔ ∀ p ∈ ps, IsReadable p) ∧
    (∀ e, ofParameters ps = .error e → ∃ p ∈ ps, ∃ k : PagingKey,
      Text.lowered p.1 = k.name ∧ ¬ IsReadable p ∧ e = .invalidPaging k.name p.2) ∧
    ∀ o, ofParameters ps = .ok o →
      ∃ limit offset, PagingKey.limit.Asks ps limit ∧ PagingKey.offset.Asks ps offset ∧
        Paging.compile limits o.limit o.offset =
          Paging.exact limits (limit.getD 0) (offset.getD 0) ∧
        1 ≤ (Paging.compile limits o.limit o.offset).limit ∧
        (Paging.compile limits o.limit o.offset).limit ≤ limits.greatest ∧
        0 ≤ (Paging.compile limits o.limit o.offset).offset ∧
        ∀ catalog e q, QueryPlan.compile catalog e limits o = .ok q →
          q.paging = Paging.compile limits o.limit o.offset := by
  have hSound : limits.IsSound := by
    obtain hSound | ⟨vs, s, hSettings, rfl⟩ := h
    · exact hSound
    · exact Settings.isSound_of_ofVariables hSettings
  have hReads := reads_ofParameters ps
  refine ⟨?_, ?_, ?_⟩
  · generalize ofParameters ps = outcome at hReads
    cases hReads with
    | taken hReadable => exact iff_of_true ⟨_, rfl⟩ hReadable
    | refused hMem _ hUnreadable =>
      refine iff_of_false ?_ fun hReadable => hUnreadable (hReadable _ hMem)
      rintro ⟨o, ⟨⟩⟩
  · intro e hError
    rw [hError] at hReads
    cases hReads with
    | refused hMem hKey hUnreadable => exact ⟨_, hMem, _, hKey, hUnreadable, rfl⟩
  · intro o hOk
    rw [hOk] at hReads
    cases hReads with
    | taken _ hAsks =>
      obtain ⟨limit, hLimit, hFirst⟩ := hAsks .limit
      obtain ⟨offset, hOffset, hSecond⟩ := hAsks .offset
      have hExact : Paging.compile limits o.limit o.offset =
          Paging.exact limits (limit.getD 0) (offset.getD 0) := by
        rw [← Paging.compile_saturate hSound, ← hFirst, ← hSecond]
        rfl
      have hBounds := Paging.exact_bounds hSound (limit.getD 0) (offset.getD 0)
      rw [← hExact] at hBounds
      refine ⟨limit, offset, hLimit, hOffset, hExact, hBounds.1, hBounds.2.1, hBounds.2.2, ?_⟩
      intro catalog e q hCompile
      exact (QueryPlan.compile_parts_iff.mp hCompile).2.2.2.2.symm

/-- The last limit counts, and both integers are beyond 64 bits. -/
def sampleParameters : List (String × String) :=
  [("limit", "7"), ("Limit", " +99999999999999999999 "), ("offset", "-99999999999999999999")]

def sampleVariables : Settings.Variables :=
  [("DATABASE_URL", "postgres://w"), ("DBREST_MAX_RECORD_LIMIT", " 1000 ")]

theorem hugeLimit_is_exact :
    ∃ s o, Settings.ofVariables sampleVariables = .ok s ∧
      ofParameters sampleParameters = .ok o ∧
      Paging.compile s.limits o.limit o.offset = ⟨1000, 0⟩ ∧
      ¬ ∃ o, ofParameters [("offset", "-+5")] = .ok o := by
  obtain ⟨s, hSettings, hLimits⟩ :
      ∃ s, Settings.ofVariables sampleVariables = .ok s ∧ s.limits = ⟨25, 1000⟩ := ⟨_, rfl, rfl⟩
  obtain ⟨o, hOptions⟩ : ∃ o, ofParameters sampleParameters = .ok o := ⟨_, rfl⟩
  obtain ⟨-, -, hExact⟩ := pages_are_exact (.inr ⟨_, s, hSettings, rfl⟩) sampleParameters
  obtain ⟨limit, offset, hLimit, hOffset, hPaging, -⟩ := hExact o hOptions
  obtain ⟨hReadable, -, -⟩ :=
    pages_are_exact (.inr ⟨_, s, hSettings, rfl⟩) [("offset", "-+5")]
  refine ⟨s, o, hSettings, hOptions, ?_, fun hOk => ?_⟩
  · have hGreat : limit = some 99999999999999999999 := hLimit.eq_of_text? rfl
    have hSmall : offset = some (-99999999999999999999) := hOffset.eq_of_text? rfl
    rw [hPaging, hLimits, hGreat, hSmall]
    rfl
  · obtain ⟨n, hInteger⟩ := hReadable.mp hOk _ (List.mem_singleton_self _) .offset rfl
    cases Numeral.readInteger?_eq_some_iff.mpr hInteger

end QueryOptions

end TableGateway
