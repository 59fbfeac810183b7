import IngestPipeline.Text.Replace

/-! # Date formats

A date format in letter notation (`yyyy-MM-dd'T'HH:mm`) is read from left to right as a sequence of
**tokens** and written as a strftime format, token by token. A `%` directive that is already there
is copied, a quoted literal loses its quotes, and a letter that has no counterpart is copied and
reported.

* **`Token.next`**: the token at the front of a text.
* **`tokens`**: all tokens of a text.
* **`DateFormat.ofSource`**: the strftime format of a date format and its unsupported letters. -/

namespace IngestPipeline

/-- A date format in strftime notation. -/
structure DateFormat where
  /-- The strftime text. -/
  strftime : String
  /-- The letters of the source that have no strftime directive, each once, in order. -/
  unsupported : List String
  deriving DecidableEq, Repr

namespace DateFormat

/-- The quote that encloses literal text. -/
def quote : Char := '\x27'

/-- The formats that both notations know by name. -/
def namedFormats : List String := ["ISO8601", "UNIX", "UNIX_MS", "TAI64N"]

/-- Whether the text is the name of a format. -/
def isNamed (s : String) : Bool := namedFormats.contains s

/-- The letter groups with a strftime directive. A longer group stands before the shorter ones of
the same letter. -/
def directives : List (String × String) :=
  [("yyyy", "%Y"), ("MMMM", "%B"), ("EEEE", "%A"), ("MMM", "%b"), ("EEE", "%a"), ("yy", "%y"),
    ("MM", "%m"), ("dd", "%d"), ("HH", "%H"), ("hh", "%I"), ("mm", "%M"), ("ss", "%S"),
    ("M", "%-m"), ("d", "%-d"), ("H", "%-H"), ("h", "%-I"), ("m", "%-M"), ("s", "%-S"),
    ("a", "%p")]

/-- A piece of a date format. -/
inductive Token where
  /-- A letter group with its directive. -/
  | group (source directive : List Char)
  /-- A strftime directive: a percent sign, perhaps a minus sign, and a letter or percent sign. -/
  | directive (text : List Char)
  /-- A quoted literal, as the text it stands for. -/
  | literal (text : List Char)
  /-- A letter without a directive. -/
  | letter (c : Char)
  /-- Any other character. -/
  | other (c : Char)
  deriving DecidableEq, Repr

/-- The longest literal that closes in the text behind an opening quote, with two quotes standing
for one, and the rest of the text. A pair of quotes is taken for a closing one when no later quote
closes the literal. -/
def literal? : List Char → Option (List Char × List Char)
  | [] => none
  | c :: s =>
      if c = quote then
        match s with
        | d :: s' =>
            if d = quote then
              -- the pair stands for a quote if the literal closes behind it
              match literal? s' with
              | some (text, rest) => some (quote :: text, rest)
              | none => some ([], s)
            else some ([], s)
        | [] => some ([], [])
      else (literal? s).map fun parts => (c :: parts.1, parts.2)

/-- Behind a percent sign: the rest of a directive, and what follows it. -/
def directive? : List Char → Option (List Char × List Char)
  | '-' :: c :: s => if c.isAlpha || c = '%' then some (['-', c], s) else none
  | c :: s => if c.isAlpha || c = '%' then some ([c], s) else none
  | [] => none

/-- The first letter group of the table that stands at the front, its directive, and the rest. -/
def group? (s : List Char) : Option (Token × List Char) :=
  directives.findSome? fun entry =>
    (Text.after? entry.1.toList s).map fun rest => (.group entry.1.toList entry.2.toList, rest)

/-- The token at the front of `c :: s`, and the rest. -/
def Token.next (c : Char) (s : List Char) : Token × List Char :=
  if c = quote then
    match literal? s with
    | some (text, rest) => (.literal text, rest)
    | none => (.other c, s)
  else if c = '%' then
    match directive? s with
    | some (text, rest) => (.directive (c :: text), rest)
    | none => (.other c, s)
  else if c.isAlpha then
    (group? (c :: s)).getD (.letter c, s)
  else (.other c, s)

/-- A literal leaves less text than stood behind its opening quote. -/
theorem length_of_literal? {s text rest : List Char} (h : literal? s = some (text, rest)) :
    rest.length < s.length := by
  fun_induction literal? s generalizing text rest with
  | case1 => simp at h
  | case2 s' text' rest' hs ih =>
      cases h
      have := ih hs
      simp only [List.length_cons]
      omega
  | case3 => cases h; simp
  | case4 => cases h; simp
  | case5 => cases h; simp
  | case6 c s hc ih =>
      obtain ⟨parts, hp, he⟩ := Option.map_eq_some_iff.1 h
      cases he
      have := ih hp
      simp only [List.length_cons]
      omega

/-- A directive leaves no more text than stood behind its percent sign. -/
theorem length_of_directive? {s text rest : List Char} (h : directive? s = some (text, rest)) :
    rest.length ≤ s.length := by
  unfold directive? at h
  split at h
  · split at h <;> cases h
    simp; omega
  · split at h <;> cases h
    simp
  · simp at h

/-- A letter group takes at least one letter. -/
theorem length_of_group? {s rest : List Char} {t : Token} (h : group? s = some (t, rest)) :
    rest.length < s.length := by
  obtain ⟨entry, hm, he⟩ := List.exists_of_findSome?_eq_some h
  obtain ⟨rest', hr, hp⟩ := Option.map_eq_some_iff.1 he
  cases hp
  have hl := Text.length_of_after? hr
  have hpos : ∀ e ∈ directives, 0 < e.1.toList.length := by decide
  have := hpos entry hm
  omega

/-- A token takes at least one character. -/
theorem length_next (c : Char) (s : List Char) : (Token.next c s).2.length ≤ s.length := by
  unfold Token.next
  split
  · split
    · rename_i h
      exact Nat.le_of_lt (length_of_literal? h)
    · exact Nat.le_refl _
  · split
    · split
      · rename_i h
        exact length_of_directive? h
      · exact Nat.le_refl _
    · split
      · cases h : group? (c :: s) with
        | none => simp
        | some p => simpa using Nat.le_of_lt_succ (length_of_group? h)
      · exact Nat.le_refl _

/-- The tokens of a text, from left to right. -/
def tokens (s : List Char) : List Token :=
  match s with
  | [] => []
  | c :: s => (Token.next c s).1 :: tokens (Token.next c s).2
termination_by s.length
decreasing_by
  have := length_next c s
  simp only [List.length_cons]
  omega

/-- What a token becomes in strftime notation. An empty literal is a quote, and a percent sign in
a literal is doubled. -/
def Token.strftime : Token → List Char
  | .group _ text => text
  | .directive text => text
  | .literal text => if text.isEmpty then [quote] else Text.replace ['%'] ['%', '%'] text
  | .letter c => [c]
  | .other c => [c]

/-- The letter of a token that has no directive. -/
def Token.unsupported? : Token → Option Char
  | .letter c => some c
  | _ => none

/-- The date format in strftime notation. A named format stays as it is. -/
def ofSource (source : String) : DateFormat :=
  if isNamed source then ⟨source, []⟩
  else
    -- a letter is reported once, where it occurs first
    let ts := tokens source.toList
    { strftime := String.ofList (ts.flatMap Token.strftime)
      unsupported := (ts.filterMap Token.unsupported?).eraseDups.map Char.toString }

end DateFormat

end IngestPipeline
