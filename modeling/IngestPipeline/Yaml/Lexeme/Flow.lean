import IngestPipeline.Text.Numeral
import IngestPipeline.Yaml.Cursor

/-! # Plain and quoted scalars

Scalars that may run over several lines are read word by word. The **gap** between two words is
blanks, or line breaks with the blanks around them; a single line feed is folded to a space, and
further ones are kept.

* **`Gap`**: what stands between two words.
* **`Cursor.plain?`**: a scalar without quotes.
* **`Cursor.singleQuoted?`**, **`Cursor.doubleQuoted?`**: the scalars in quotes. -/

namespace IngestPipeline.Yaml

/-! ### Gaps -/

/-- What stands between two words of a scalar. -/
structure Gap where
  /-- The blanks before the first line break. -/
  spacing : List Char
  /-- The line breaks. -/
  breaks : List (List Char)

namespace Gap

/-- The text of the line breaks of a gap: a single line feed is folded to a space. -/
def foldBreaks : List (List Char) → List Char
  | [] => []
  | first :: more =>
      if first = ['\n'] then
        if more.isEmpty then [' '] else more.flatten
      else first ++ more.flatten

/-- The text that a gap stands for. -/
def text (g : Gap) : List Char := if g.breaks.isEmpty then g.spacing else foldBreaks g.breaks

/-- The gap before the first word. -/
def none : Gap := ⟨[], []⟩

end Gap

namespace Cursor

/-- Pass the indentation of a line. A tab may not stand in the first `indent` columns. -/
def indentation? (indent : Nat) (c : Cursor) : Option Cursor :=
  let blanks := c.rest.takeWhile isSpacing
  if (blanks.take indent).contains '\t' then none else some (c.skip blanks.length)

/-- Pass line breaks and the indentation of the lines behind them. -/
def lineBreaks? (indent : Nat) (c : Cursor) : Option (List (List Char) × Cursor) :=
  if c.at? isBreak then do
    let (text, next) := c.lineBreak
    let next ← next.indentation? indent
    if _h : next.left < c.left then
      let (more, last) ← lineBreaks? indent next
      return (text :: more, last)
    else none   -- unreachable: a line break takes a character
  else some ([], c)
termination_by c.left
decreasing_by assumption

/-- Pass a gap. -/
def gap? (indent : Nat) (c : Cursor) : Option (Gap × Cursor) := do
  let (spacing, c) := c.takeWhile isSpacing
  let (breaks, c) ← c.lineBreaks? indent
  return (⟨spacing, breaks⟩, c)

end Cursor

/-! ### Plain scalars -/

/-- The characters that end a plain scalar inside a flow collection. -/
def endsFlow (c : Char) : Bool := oneOf ",[]\x7b\x7d" c

/-- The word at the front of a plain scalar. A colon ends it when a blank or the end follows; inside
a flow collection a colon may not stand before an indicator. -/
def plainWord? (flow : Bool) : List Char → Option (List Char)
  | [] => some []
  | c :: s =>
      if isSeparator c then some []
      else if flow && c = ':' && s.head?.any (oneOf ",?[]\x7b\x7d") then none
      else if (c = ':' && atSeparator s) || (flow && endsFlow c) then some []
      else (plainWord? flow s).map (c :: ·)

/-- A scalar that was read: its text, whether line breaks at its end were passed, and the place
behind it. -/
structure PlainScalar where
  /-- The text. -/
  text : List Char
  /-- Whether the place behind it is on a later line than its end. -/
  brokenAfter : Bool
  /-- The place behind it. -/
  next : Cursor

namespace Cursor

/-- Read the rest of a plain scalar behind a gap. The gap belongs to the scalar only if another word
follows it. -/
def plainFrom? (flow : Bool) (indent : Nat) (gap : Gap) (c : Cursor) : Option PlainScalar :=
  let ended : PlainScalar := ⟨[], !gap.breaks.isEmpty, c⟩
  if c.atDocumentMark || c.sees '#' then some ended
  else do
    let word ← plainWord? flow c.rest
    if word.isEmpty then return ended
    else
      let text := gap.text ++ word
      let behind := c.skip word.length
      if behind.at? isSeparator then
        let (gap, next) ← behind.gap? indent
        if !flow && next.column < indent then return ⟨text, !gap.breaks.isEmpty, next⟩
        else if _h : next.left < c.left then
          let more ← plainFrom? flow indent gap next
          return { more with text := text ++ more.text }
        else none   -- unreachable: the word takes a character
      else return ⟨text, false, behind⟩
termination_by c.left
decreasing_by assumption

/-- Read a plain scalar whose continuation lines are indented by at least `indent` columns. -/
def plain? (flow : Bool) (indent : Nat) (c : Cursor) : Option PlainScalar :=
  c.plainFrom? flow indent .none

end Cursor

/-! ### Quoted scalars -/

/-- The word at the front of a single-quoted scalar, and how many characters it takes. Two quotes
stand for one. -/
def singleWord : List Char → List Char × Nat
  | [] => ([], 0)
  | c :: s =>
      if isSeparator c then ([], 0)
      else if c = '\x27' then
        match s with
        | d :: s' =>
            if d = '\x27' then
              let (word, n) := singleWord s'
              (c :: word, n + 2)
            else ([], 0)
        | [] => ([], 0)
      else
        let (word, n) := singleWord s
        (c :: word, n + 1)

/-- The character that a letter behind a backslash stands for. -/
def letterEscape? : Char → Option Char
  | '0' => some '\x00'
  | 'a' => some '\x07'
  | 'b' => some '\x08'
  | 't' => some '\t'
  | '\t' => some '\t'
  | 'n' => some '\n'
  | 'v' => some '\x0b'
  | 'f' => some '\x0c'
  | 'r' => some '\r'
  | 'e' => some '\x1b'
  | ' ' => some ' '
  | '\x22' => some '\x22'
  | '/' => some '/'
  | '\\' => some '\\'
  | 'N' => some '\x85'
  | '_' => some '\u00a0'
  | 'L' => some '\u2028'
  | 'P' => some '\u2029'
  | _ => none

/-- The number that exactly `width` hexadecimal digits at the front denote. -/
def hexNumber? (width : Nat) (s : List Char) : Option Nat :=
  if s.length < width then none else Text.natural? 16 (s.take width)

/-- What stands behind a backslash, other than a line break: the character it denotes, and how many
characters the whole escape takes. -/
def escape? : List Char → Option (Char × Nat)
  | [] => none
  | e :: s =>
      match letterEscape? e with
      | some c => some (c, 2)
      | none => do
          let width ← Text.hexWidth? e
          let c ← Text.charOfCode? (← hexNumber? width s)
          return (c, width + 2)

/-- The word at the front of a double-quoted scalar, and how many characters it takes. It also ends
before an escaped line break. -/
def doubleWord? (s : List Char) : Option (List Char × Nat) :=
  match s with
  | [] => some ([], 0)
  | c :: s =>
      if isSeparator c || c = '\x22' then some ([], 0)
      else if c = '\\' then
        if s.head?.any isBreak then some ([], 0)
        else do
          let (e, n) ← escape? s
          let (word, m) ← doubleWord? (s.drop (n - 1))
          return (e :: word, m + n)
      else do
        let (word, m) ← doubleWord? s
        return (c :: word, m + 1)
termination_by s.length
decreasing_by
  · simp only [List.length_drop, List.length_cons]
    omega
  · simp

namespace Cursor

/-- Read the rest of a single-quoted scalar, up to and including its closing quote. -/
def singleFrom? (c : Cursor) : Option (List Char × Cursor) :=
  if c.atDocumentMark then none
  else
    let (word, n) := singleWord c.rest
    let behind := c.skip n
    if behind.sees '\x27' then some (word, behind.skip 1)
    else do
      let (gap, next) ← behind.gap? 0
      if _h : next.left < c.left then
        let (more, last) ← singleFrom? next
        return (word ++ gap.text ++ more, last)
      else none   -- the text ends before the closing quote
termination_by c.left
decreasing_by assumption

/-- Read a single-quoted scalar, the opening quote included. -/
def singleQuoted? (c : Cursor) : Option (List Char × Cursor) := (c.skip 1).singleFrom?

/-- Read the rest of a double-quoted scalar, up to and including its closing quote. An escaped line
break joins two lines. -/
def doubleFrom? (c : Cursor) : Option (List Char × Cursor) :=
  if c.atDocumentMark then none
  else do
    let (word, n) ← doubleWord? c.rest
    let behind := c.skip n
    -- a backslash that is left over stands before a line break
    let joins := behind.sees '\\'
    let behind := if joins then (behind.skip 1).lineBreak.2 else behind
    if behind.sees '\x22' then return (word, behind.skip 1)
    else
      let (gap, next) ← behind.gap? 0
      let between := if joins then gap.breaks.flatten else gap.text
      if _h : next.left < c.left then
        let (more, last) ← doubleFrom? next
        return (word ++ between ++ more, last)
      else none   -- the text ends before the closing quote
termination_by c.left
decreasing_by assumption

/-- Read a double-quoted scalar, the opening quote included. -/
def doubleQuoted? (c : Cursor) : Option (List Char × Cursor) := (c.skip 1).doubleFrom?

end Cursor

end IngestPipeline.Yaml
