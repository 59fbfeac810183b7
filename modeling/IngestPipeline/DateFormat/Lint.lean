import IngestPipeline.DateFormat

/-! # Checking strftime formats

* **`Strftime.specifier?`**: what follows a percent sign in a valid format.
* **`Strftime.isValid`**: whether every percent sign of a text starts a known specifier.
* **`DateFormat.findings`**: what a consumer of a strftime format would trip over. -/

namespace IngestPipeline

namespace Strftime

/-- The specifiers of one character. -/
def plainSpecifiers : List Char :=
  "ABCDFGHIMPRSTUVWXYZabcdefghjklmnpqrstuvwxyz+%".toList

/-- The specifiers of numbers, which alone can be padded. -/
def numericSpecifiers : List Char := "CGHIMSUVWYdefgjklmqsuwy".toList

/-- The characters that choose a padding. -/
def paddings : List Char := ['-', '0', '_']

/-- The specifiers of several characters. -/
def longSpecifiers : List String :=
  [":z", "::z", ":::z", ".f", ".3f", ".6f", ".9f", "3f", "6f", "9f", "#z"]

/-- The text after the specifier at the front of `s`, which stands behind a percent sign. -/
def specifier? : List Char → Option (List Char)
  | [] => none
  | c :: s =>
      -- no specifier begins with a padding character, so the padding decides
      if paddings.contains c then
        match s with
        | d :: rest => if numericSpecifiers.contains d then some rest else none
        | [] => none
      else if plainSpecifiers.contains c then some s
      else longSpecifiers.findSome? fun long => Text.after? long.toList (c :: s)

/-- A specifier takes at least one character. -/
theorem length_of_specifier? {s rest : List Char} (h : specifier? s = some rest) :
    rest.length < s.length := by
  unfold specifier? at h
  split at h
  · simp at h
  · split at h
    · split at h
      · split at h <;> cases h
        simp only [List.length_cons]
        omega
      · simp at h
    · split at h
      · cases h; simp
      · obtain ⟨long, hm, ha⟩ := List.exists_of_findSome?_eq_some h
        have hl := Text.length_of_after? ha
        have hpos : ∀ l ∈ longSpecifiers, 0 < l.toList.length := by decide
        have := hpos long hm
        omega

/-- Whether every percent sign of the text starts a known specifier. -/
def isValid (s : List Char) : Bool :=
  match s with
  | [] => true
  | c :: s =>
      if c = '%' then
        match _h : specifier? s with
        | some rest => isValid rest
        | none => false
      else isValid s
termination_by s.length
decreasing_by
  · have := length_of_specifier? _h
    simp only [List.length_cons]
    omega
  · simp

end Strftime

namespace DateFormat

/-- What is said about a letter without a directive. -/
def unsupportedFinding (token : String) : String :=
  "date token '" ++ token ++ "' has no strftime equivalent"

/-- What is said about a text that is no strftime format. -/
def invalidFinding (strftime : String) : String :=
  "'" ++ strftime ++ "' is not a valid strftime format"

/-- What a consumer of the format would trip over: first the letters that have no directive, then
a text that is neither a named format nor a valid strftime format. -/
def findings (format : DateFormat) : List String :=
  format.unsupported.map unsupportedFinding ++
    if isNamed format.strftime || Strftime.isValid format.strftime.toList then []
    else [invalidFinding format.strftime]

end DateFormat

end IngestPipeline
