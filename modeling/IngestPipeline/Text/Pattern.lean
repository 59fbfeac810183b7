/-! # Patterns

A pattern is a sequence of **parts**, each of which takes some characters of one kind. A text fits a
pattern if it can be divided among the parts from left to right. There may be several ways to do so:
a part prefers to take many characters or few, and the part in front has its way before the others.

* **`Part.counts part s`**: how many characters a part may take from the front of `s`, the preferred
  number first.
* **`divide? parts s`**: the text of each part, in the preferred division of `s`. -/

namespace IngestPipeline.Text

/-- A part of a pattern: a number of characters of one kind. -/
structure Part where
  /-- The characters that the part takes. -/
  kind : Char → Bool
  /-- The least number of them. -/
  least : Nat
  /-- The greatest number of them, if there is one. -/
  most : Option Nat
  /-- Whether many are preferred to few. -/
  greedy : Bool

namespace Part

/-- The greatest number of characters that the part can take from the front of a text. -/
def reach (part : Part) (s : List Char) : Nat :=
  let run := (s.takeWhile part.kind).length
  part.most.elim run (min run)

/-- The numbers of characters that the part can take from the front of a text, the preferred one
first. -/
def counts (part : Part) (s : List Char) : List Nat :=
  let increasing := List.range' part.least (part.reach s + 1 - part.least)
  if part.greedy then increasing.reverse else increasing

end Part

/-- The text of each part in the preferred division of the whole text, or `none` if it cannot be
divided. A part gives way only if nothing can be made of what it leaves. -/
def divide? : List Part → List Char → Option (List (List Char))
  | [], s => if s.isEmpty then some [] else none
  | part :: parts, s =>
      (part.counts s).findSome? fun n =>
        (divide? parts (s.drop n)).map fun texts => s.take n :: texts

end IngestPipeline.Text
