import IngestPipeline.Text.Blank
import IngestPipeline.Text.Pattern

/-! # Field templates

A value that is one template, a name between two or three braces on each side, refers to the field
of that name. Blanks around the name do not belong to it.

* **`Template.parts`**: the pattern of a template.
* **`templateName?`**: the name in a text that is one template. -/

namespace IngestPipeline

/-- Whether a character is no brace. -/
def isBraceFree (c : Char) : Bool := c != '\x7b' && c != '\x7d'

namespace Template

/-- Two or three braces. -/
def braces (brace : Char) : Text.Part := ⟨(· == brace), 2, some 3, true⟩

/-- Any number of blanks, as many as there are. -/
def blanks : Text.Part := ⟨Text.isBlank, 0, none, true⟩

/-- A name without braces, as short as it can be. -/
def name : Text.Part := ⟨isBraceFree, 1, none, false⟩

/-- The pattern of a template: a name between blanks between braces. -/
def parts : List Text.Part := [braces '\x7b', blanks, name, blanks, braces '\x7d']

end Template

/-- The name in a text that is one template. -/
def templateName? (s : List Char) : Option (List Char) :=
  match Text.divide? Template.parts s with
  | some [_, _, name, _, _] => some name
  | _ => none

end IngestPipeline
