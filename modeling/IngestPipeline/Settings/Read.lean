import IngestPipeline.Settings
import IngestPipeline.Text.Blank
import IngestPipeline.Yaml.Load

/-! # Reading a configuration

A configuration is a mapping from the names of settings to scalars. A text setting takes the text of
any scalar as it is written; the parse style is named by a scalar or by the tag of an empty one.
Every name is a known setting and occurs once.

* **`Settings.ofText?`**: the settings of a configuration text. -/

namespace IngestPipeline

open Yaml (Node Properties)

namespace Settings

/-- The node that a node stands for. -/
def follow? (slots : List (Nat × Node)) : Node → Option Node
  | .alias slot => slots.reverse.lookup slot
  | n => some n

/-- The text of a scalar as it is written. -/
def rawText? (slots : List (Nat × Node)) (n : Node) : Option String := do
  match ← follow? slots n with
  | .scalar _ text _ => some text
  | _ => none

/-- The parse style that a scalar names: by its application tag if it has one, which leaves the
scalar itself empty, and otherwise by its text. -/
def parseStyle? (slots : List (Nat × Node)) (n : Node) : Option ParseStyle := do
  match ← follow? slots n with
  -- a tag that names the style leaves no room for a text
  | .scalar p text plain =>
      match p.tag.bind Yaml.Tag.applicationName? with
      | some name =>
          if plain && (text.isEmpty || (Yaml.parseNull? text.toList).isSome)
          then ParseStyle.ofName? name else none
      | none => ParseStyle.ofName? text
  | _ => none

/-- Apply the entries of a configuration. `seen` are the names that occurred before. -/
def override? (slots : List (Nat × Node)) (s : Settings) (seen : List String) :
    List (Node × Node) → Option Settings
  | [] => some s
  | (k, v) :: es => do
      let name ← rawText? slots k
      if seen.contains name then none
      else if name = parseStyleName then
        override? slots { s with parseStyle := ← parseStyle? slots v } (name :: seen) es
      else
        let s ← s.setText? name (← rawText? slots v)
        override? slots s (name :: seen) es

/-- The settings of a configuration tree. A place where nothing is written changes nothing. -/
def ofNode? (n : Node) : Option Settings :=
  match n with
  | .map _ entries => override? n.slots {} [] entries
  | .scalar _ "" true => some {}
  | _ => none

/-- The settings of a configuration text. A blank text changes nothing. -/
def ofText? (text : String) : Option Settings :=
  if (Text.trim text.toList).isEmpty then some {}
  else do
    match ← Yaml.parse? text with
    | none => some {}
    | some n => ofNode? n

end Settings

end IngestPipeline
