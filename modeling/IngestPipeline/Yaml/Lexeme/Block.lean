import IngestPipeline.Yaml.Cursor

/-! # Block scalars

A literal or folded block: a header line, then lines that are indented alike. A literal block keeps
its line breaks; a folded one turns a single line feed between two lines that start at the margin
into a space. The **chomping** of the header decides what happens to the line breaks at the end.

* **`Cursor.blockHeader?`**: the header.
* **`Cursor.blockScalar?`**: the whole scalar. -/

namespace IngestPipeline.Yaml

/-- What happens to the line breaks at the end of a block. -/
inductive Chomping where
  /-- None is kept. -/
  | strip
  /-- The first is kept. -/
  | clip
  /-- All are kept. -/
  | keep
  deriving DecidableEq, Repr

/-- The header of a block. -/
structure BlockHeader where
  /-- What happens to the line breaks at the end. -/
  chomping : Chomping
  /-- The indentation relative to the enclosing node, if it is given. -/
  increment : Option Nat

/-- The chomping that a character chooses. -/
def chomping? : Char → Option Chomping
  | '-' => some .strip
  | '+' => some .keep
  | _ => none

/-- The indentation that a digit chooses. -/
def increment? (c : Char) : Option Nat :=
  if '1' ≤ c ∧ c ≤ '9' then some (c.toNat - 0x30) else none

namespace Cursor

/-- Read the header of a block behind its indicator, up to and including the line break: a chomping
and an indentation, each optional, in either order. -/
def blockHeader? (c : Cursor) : Option (BlockHeader × Cursor) := do
  let first := c.rest.head?
  let second := (c.rest.drop 1).head?
  let (header, n) : BlockHeader × Nat :=
    match first.bind chomping?, first.bind increment? with
    | some chomping, _ =>
        match second.bind increment? with
        | some n => (⟨chomping, some n⟩, 2)
        | none => (⟨chomping, none⟩, 1)
    | none, some n =>
        match second.bind chomping? with
        | some chomping => (⟨chomping, some n⟩, 2)
        | none => (⟨.clip, some n⟩, 1)
    | none, none => (⟨.clip, none⟩, 0)
  return (header, ← (c.skip n).finishLine?)

/-- The empty lines in front of a line of a block. -/
structure EmptyLines where
  /-- Their line breaks. -/
  breaks : List Char
  /-- The largest column that their blanks, or the indentation of the next line, reach. -/
  width : Nat
  /-- The place behind them and the indentation of the next line. -/
  next : Cursor

/-- Pass empty lines and the indentation of the line behind them: at most `indent` spaces if the
indentation is known, all of them if it is not. A tab may not stand in the indentation. -/
def emptyLines? (indent : Option Nat) (c : Cursor) : Option EmptyLines :=
  let blanks := (c.rest.takeWhile (· == ' ')).length
  let passed := match indent with
    | some n => min blanks (n - c.column)
    | none => blanks
  let here := c.skip passed
  let indented := match indent with
    | some n => decide (n ≤ here.column)
    | none => false
  if !indented && here.sees '\t' then none
  else if here.at? isBreak then do
    let (text, next) := here.lineBreak
    if _h : next.left < c.left then
      let more ← emptyLines? indent next
      return { more with breaks := text ++ more.breaks, width := max here.column more.width }
    else none   -- unreachable: a line break takes a character
  else some ⟨[], here.column, here⟩
termination_by c.left
decreasing_by assumption

/-- The lines of a block from some line on. -/
structure BlockText where
  /-- The lines, without the line breaks behind the last one. -/
  text : List Char
  /-- The line break behind the last line. -/
  ending : List Char
  /-- The line breaks of the empty lines behind it. -/
  trailing : List Char
  /-- The place behind the block. -/
  next : Cursor

/-- What separates two lines of a block: the line break behind the first and those of the empty
lines. In a folded block a single line feed becomes a space, unless one of the lines starts with a
blank. -/
def lineGap (folded : Bool) (ending trailing : List Char) (blankBefore blankAfter : Bool) :
    List Char :=
  if folded && ending == ['\n'] && !blankBefore && !blankAfter then
    if trailing.isEmpty then [' '] else trailing
  else ending ++ trailing

/-- Read the lines of a block of the given indentation. `ending` and `trailing` are the line breaks
behind the line before, and `blankBefore` says whether that line started with a blank. -/
def blockLines? (folded : Bool) (indent : Nat) (ending trailing : List Char) (blankBefore : Bool)
    (c : Cursor) : Option BlockText :=
  if c.column = indent ∧ !c.rest.isEmpty then do
    let blank := c.at? isSpacing
    let (line, behind) := c.takeWhile fun ch => !isBreak ch
    let (lineEnd, next) := behind.lineBreak
    let empty ← next.emptyLines? (some indent)
    if _h : empty.next.left < c.left then
      let more ← blockLines? folded indent lineEnd empty.breaks blank empty.next
      return { more with
        text := lineGap folded ending trailing blankBefore blank ++ line ++ more.text }
    else none   -- unreachable: the line takes a character
  else some ⟨[], ending, trailing, c⟩
termination_by c.left
decreasing_by assumption

/-- Read a block scalar, its indicator included. `parent` is the indentation of the enclosing
node. -/
def blockScalar? (folded : Bool) (parent : Int) (c : Cursor) : Option (List Char × Cursor) := do
  let (header, c) ← (c.skip 1).blockHeader?
  let given := header.increment.map fun n => (max parent 0).toNat + n
  let empty ← c.emptyLines? given
  -- without a hint, the first line that is not empty sets the indentation
  let indent := given.getD (max empty.width (max (parent + 1) 1).toNat)
  let read ← empty.next.blockLines? folded indent [] empty.breaks false
  let text := match header.chomping with
    | .strip => read.text
    | .clip => read.text ++ read.ending
    | .keep => read.text ++ read.ending ++ read.trailing
  return (text, read.next)

end Cursor

end IngestPipeline.Yaml
