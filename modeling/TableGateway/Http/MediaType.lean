/-!
# Media types

The part of the grammar of a content type that decides whether a body is JSON: `application/json`,
or any `application` type with the suffix `+json`, followed by well-formed parameters.
-/

namespace TableGateway.MediaType

def isTokenChar (c : Char) : Bool :=
  c.isAlphanum || "!#$%&'*+-.^_|~\x60".toList.contains c

/-- A quoted value up to its closing quote, and what follows. It has one character at least, and
this may itself be a quote. -/
def skipQuoted? : List Char → Option (List Char)
  | [] => none
  | c :: rest =>
    if c < ' ' ∨ c = '\x7f' then none
    else
      let content := rest.takeWhile (· != '"')
      match rest.dropWhile (· != '"') with
      | [] => none
      | _ :: after =>
        if content.any fun c => c < ' ' || c = '\x7f' then none
        else some (after.dropWhile (· = ' '))

def skipValue? (cs : List Char) : Option (List Char) :=
  let after? :=
    match cs with
    | '"' :: rest => skipQuoted? rest
    | c :: _ => if isTokenChar c then some (cs.dropWhile isTokenChar) else none
    | [] => some []
  match after? with
  | some [] => some []
  | some (';' :: rest) => some rest
  | _ => none

theorem length_skipQuoted? {cs rest : List Char} (h : skipQuoted? cs = some rest) :
    rest.length < cs.length := by
  cases cs with
  | nil => simp [skipQuoted?] at h
  | cons c cs =>
    simp only [skipQuoted?] at h
    split at h
    · simp at h
    · split at h
      · simp at h
      · rename_i after hafter
        split at h
        · simp at h
        · have := (List.dropWhile_sublist (· != '"') (l := cs)).length_le
          have := (List.dropWhile_sublist (· = ' ') (l := after)).length_le
          simp [hafter] at *
          subst h
          omega

theorem length_skipValue? {cs rest : List Char} (h : skipValue? cs = some rest) :
    rest.length ≤ cs.length := by
  simp only [skipValue?] at h
  split at h
  · simp_all
  · rename_i hafter
    obtain rfl := Option.some.inj h
    split at hafter
    · have := length_skipQuoted? hafter
      simp at this ⊢
      omega
    · rename_i c tail _
      split at hafter
      · have := (List.dropWhile_sublist isTokenChar (l := c :: tail)).length_le
        simp only [Option.some.injEq] at hafter
        rw [hafter] at this
        simp at this ⊢
        omega
      · simp at hafter
    · simp at hafter
  · simp at h

/-- Whether the text after the first semicolon is a list of parameters. It may be empty, and blanks
may stand before a parameter. -/
def areParameters (cs : List Char) : Bool :=
  match cs with
  | [] => true
  | ' ' :: rest => areParameters rest
  | c :: rest =>
    if !isTokenChar c then false
    else
      match _h : rest.dropWhile isTokenChar with
      | '=' :: valueText =>
        match _h' : skipValue? valueText with
        | some next => areParameters next
        | none => false
      | _ => false
termination_by cs.length
decreasing_by
  · simp
  · have := (List.dropWhile_sublist isTokenChar (l := rest)).length_le
    have := length_skipValue? _h'
    simp_all
    omega

/-- The subtype and its suffix, which the last plus sign separates unless it comes first. -/
def splitSuffix (subtype : List Char) : List Char × Option (List Char) :=
  let suffix := (subtype.reverse.takeWhile (· != '+')).reverse
  let before := subtype.take (subtype.length - suffix.length - 1)
  if suffix.length < subtype.length ∧ !before.isEmpty then (before, some suffix)
  else (subtype, none)

/-- Whether a content type says that a body is JSON. -/
def isJson (contentType : String) : Bool :=
  let lower := contentType.toList.map Char.toLower
  let type := lower.takeWhile (· != '/')
  let rest := (lower.dropWhile (· != '/')).drop 1
  let subtype := rest.takeWhile isTokenChar
  let (name, suffix) := splitSuffix subtype
  let parameters :=
    match rest.dropWhile isTokenChar with
    | [] => true
    | ';' :: parameters => areParameters parameters
    | _ => false
  type = "application".toList && !subtype.isEmpty && parameters &&
    (name = "json".toList || suffix = some "json".toList)

end TableGateway.MediaType
