import IngestPipeline.Text.Blank

/-! # Options and nesting of value patterns

Two **options** decide what may be written at a place of a pattern, and a pattern may not be nested
too deep. Both are known while the pattern is read from left to right.

* **`Options.skip`**: what is passed over between two items.
* **`Options.set`**: the options behind some letters that switch options on and off.
* **`Row`**: items that stand side by side, as far as the nesting goes. -/

namespace IngestPipeline.CommandLine.ValuePattern

/-! ### Options -/

/-- The options at a place of a pattern that decide what may be written there. -/
structure Options where
  /-- The pattern speaks of characters, and otherwise of octets. -/
  unicode : Bool
  /-- Blanks and comments between the items are passed over. -/
  spaced : Bool
  deriving DecidableEq, Repr

/-- What follows blanks and comments, `inComment` telling whether a comment is open at first. A
comment lasts from a number sign to the end of its line. -/
def skipSpace (inComment : Bool) : List Char → List Char
  | [] => []
  | c :: rest =>
      if inComment then skipSpace (c != '\n') rest
      else if Text.isBlank c then skipSpace false rest
      else if c = '#' then skipSpace true rest
      else c :: rest

/-- Skipping adds nothing. -/
theorem length_skipSpace_le (inComment : Bool) (s : List Char) :
    (skipSpace inComment s).length ≤ s.length := by
  induction s generalizing inComment with
  | nil => simp [skipSpace]
  | cons c rest ih =>
      simp only [skipSpace]
      split
      · exact Nat.le_succ_of_le (ih _)
      · split
        · exact Nat.le_succ_of_le (ih _)
        · split
          · exact Nat.le_succ_of_le (ih _)
          · exact Nat.le_refl _

namespace Options

/-- The options that a pattern begins with. -/
def initial : Options := ⟨true, false⟩

/-- What follows blanks and comments, if they are passed over. -/
def skip (o : Options) (s : List Char) : List Char := if o.spaced then skipSpace false s else s

/-- Skipping adds nothing, whatever the options are. -/
theorem length_skip_le (o : Options) (s : List Char) : (o.skip s).length ≤ s.length := by
  rw [skip]
  split
  · exact length_skipSpace_le _ _
  · exact Nat.le_refl _

/-- The letters of all options. Most of them do not bear on what may be written. -/
def letters : List Char := ['i', 'm', 's', 'U', 'u', 'R', 'x']

/-- The options behind a list of letters. Those behind a hyphen are switched off. -/
def set (o : Options) (flags : List Char) : Options :=
  let on := flags.takeWhile (· != '-')
  let off := flags.dropWhile (· != '-')
  ⟨(o.unicode || on.contains 'u') && !off.contains 'u',
    (o.spaced || on.contains 'x') && !off.contains 'x'⟩

end Options

/-! ### Nesting -/

/-- Items that stand side by side. -/
structure Row where
  /-- How many there are. -/
  count : Nat
  /-- How deep the deepest one is nested. -/
  depth : Nat
  deriving DecidableEq, Repr

namespace Row

/-- No items. -/
def empty : Row := ⟨0, 0⟩

/-- One more item, nested to the given depth. -/
def push (r : Row) (depth : Nat) : Row := ⟨r.count + 1, max r.depth depth⟩

/-- How deep the row is nested as a whole. Two items and more are held together by a level of their
own. -/
def height (r : Row) : Nat := if r.count < 2 then r.depth else r.depth + 1

end Row

/-- How deep a pattern may be nested. -/
def depthLimit : Nat := 250

end IngestPipeline.CommandLine.ValuePattern
