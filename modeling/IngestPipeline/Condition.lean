import IngestPipeline.Text.Blank
import IngestPipeline.Text.Replace

/-! # Conditions

The condition of a processor is an expression over the event's fields. In a decoder document it
becomes a check: fields lose the name of the context, the safe navigation mark `?` disappears,
`&&` and `||` become words, and a membership test or comparison gets its field marked with `$`.

* **`Condition.bare`**: the five replacements.
* **`Condition.check`**: the check of a condition. -/

namespace IngestPipeline.Condition

/-- A condition without context names and safe navigation, its connectives as words. -/
def bare (s : List Char) : List Char :=
  -- `ctx?.` survives the first replacement and is removed whole by the second
  let s := Text.replace "ctx.".toList [] s
  let s := Text.replace "ctx?.".toList [] s
  let s := Text.replace ['?'] [] s
  let s := Text.replace ['&', '&'] "AND".toList s
  Text.replace ['|', '|'] "OR".toList s

/-- A text without a closing parenthesis at its end. -/
def dropClosing (s : List Char) : List Char :=
  match s.reverse with
  | ')' :: rest => rest.reverse
  | _ => s

/-- The check of a bare condition: a membership test if it contains a call of `contains`, a
comparison if it contains `==`, and otherwise the condition itself. -/
def ofBare (s : List Char) : List Char :=
  match Text.splitOnce ".contains(".toList s with
  | some (field, value) =>
      "contains($".toList ++ Text.trim field ++ ", ".toList ++ Text.trim (dropClosing value) ++
        [')']
  | none =>
      match Text.splitOnce "==".toList s with
      | some (field, value) => '$' :: Text.trim field ++ " == ".toList ++ Text.trim value
      | none => s

/-- The check of a condition. -/
def check (condition : String) : String := Text.onString (fun s => ofBare (bare s)) condition

end IngestPipeline.Condition
