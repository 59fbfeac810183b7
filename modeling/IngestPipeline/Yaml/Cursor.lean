import IngestPipeline.Text.Octet
import IngestPipeline.Yaml.Char

/-! # Cursors

A cursor is a place in a document: the text that is left, and how many octets, lines and columns
were passed. Readers take a cursor and return the one behind what they read.

* **`Cursor.left`**: how many octets are left; loops over a cursor go on only while it decreases.
* **`skip`**, **`skipWhile`**, **`lineBreak`**: steps within a line and over its end. -/

namespace IngestPipeline.Yaml

/-- A place in a document. -/
structure Cursor where
  /-- The text that is left. -/
  rest : List Char
  /-- The number of octets passed. -/
  index : Nat
  /-- The number of line breaks passed. -/
  line : Nat
  /-- The number of characters passed in the line. -/
  column : Nat
  /-- The number of octets of the whole text. -/
  limit : Nat

namespace Cursor

/-- The start of a text. -/
def start (s : List Char) : Cursor := ⟨s, 0, 0, 0, Text.octets s⟩

/-- The number of octets that are left. -/
def left (c : Cursor) : Nat := c.limit - c.index

/-- Pass `n` characters within the line. -/
def skip (c : Cursor) (n : Nat) : Cursor :=
  { c with
    rest := c.rest.drop n
    index := c.index + Text.octets (c.rest.take n)
    column := c.column + n }

/-- Pass the characters of a class. -/
def skipWhile (c : Cursor) (p : Char → Bool) : Cursor := c.skip (c.rest.takeWhile p).length

/-- The characters of a class, and the place behind them. -/
def takeWhile (c : Cursor) (p : Char → Bool) : List Char × Cursor :=
  (c.rest.takeWhile p, c.skipWhile p)

/-- Whether the next character is in a class. -/
def at? (c : Cursor) (p : Char → Bool) : Bool := c.rest.head?.any p

/-- Whether the next character is the given one. -/
def sees (c : Cursor) (ch : Char) : Bool := c.rest.head? == some ch

/-- Whether the text is at its end, a blank or a line break. -/
def atSeparator (c : Cursor) : Bool := Yaml.atSeparator c.rest

/-- Whether the text is at its end or a line break. -/
def atLineEnd (c : Cursor) : Bool := Yaml.atLineEnd c.rest

/-- Pass a line break. It stands for a line feed, unless it is a line or paragraph separator. A
carriage return and a line feed are one line break. -/
def lineBreak (c : Cursor) : List Char × Cursor :=
  match c.rest with
  | '\r' :: '\n' :: rest =>
      (['\n'], { c with rest := rest, index := c.index + 2, line := c.line + 1, column := 0 })
  | ch :: rest =>
      (if ch = '\u2028' || ch = '\u2029' then [ch] else ['\n'],
        { c with rest := rest, index := c.index + ch.utf8Size, line := c.line + 1, column := 0 })
  | [] => ([], c)

/-- Whether a line of three dashes or three dots begins here, which ends any open text. -/
def atDocumentMark (c : Cursor) : Bool :=
  c.column == 0 &&
    match c.rest with
    | '-' :: '-' :: '-' :: rest => Yaml.atSeparator rest
    | '.' :: '.' :: '.' :: rest => Yaml.atSeparator rest
    | _ => false

/-- Pass blanks and a comment up to the end of the line, which must follow. -/
def finishLine? (c : Cursor) : Option Cursor :=
  let c := c.skipWhile isSpacing
  -- a comment runs to the end of the line
  let c := if c.sees '#' then c.skipWhile fun ch => !isBreak ch else c
  if !c.atLineEnd then none
  else if c.rest.isEmpty then some c
  else some c.lineBreak.2

end Cursor

end IngestPipeline.Yaml
