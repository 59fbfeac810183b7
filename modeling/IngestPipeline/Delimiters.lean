import IngestPipeline.Text.Replace

/-! # Extraction tokens

An extraction pattern marks what it captures by tokens: a percent sign and an opening brace, a
body, and the next closing brace. A decoder document writes the same token as the body between
angle brackets. Text outside closed tokens stays as it is.

* **`Delimiters.angled`**: the pattern with angle brackets. -/

namespace IngestPipeline.Delimiters

/-- The pattern with every closed token in angle brackets. -/
def angled (s : List Char) : List Char :=
  match s with
  | [] => []
  | c :: s =>
      if c = '%' then
        match s with
        | d :: body =>
            if d = '\x7b' then
              match _h : Text.splitOnce ['\x7d'] body with
              | some parts => '<' :: parts.1 ++ '>' :: angled parts.2
              -- no brace closes this token, and so none closes a later one
              | none => c :: d :: body
            else c :: angled (d :: body)
        | [] => [c]
      else c :: angled s
termination_by s.length
decreasing_by
  · have := congrArg List.length (Text.eq_append_of_splitOnce _h)
    simp only [List.length_append, List.length_cons] at this ⊢
    omega
  · simp
  · simp

/-- The pattern with every closed token in angle brackets. -/
def inText (pattern : String) : String := Text.onString angled pattern

end IngestPipeline.Delimiters
