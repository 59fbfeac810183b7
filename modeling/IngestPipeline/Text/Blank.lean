/-! # Blank characters and trimming

A character is **blank** when it has the Unicode property `White_Space`. Texts are handled as lists
of characters, so that every operation on them is a structural recursion.

* **`isBlank c`**: membership in the `White_Space` table.
* **`trim s`**: `s` without its leading and trailing blanks. -/

namespace IngestPipeline.Text

/-- The code points with the Unicode property `White_Space`, in increasing order. -/
def blankCodes : List Nat :=
  [0x09, 0x0A, 0x0B, 0x0C, 0x0D, 0x20, 0x85, 0xA0, 0x1680,
    0x2000, 0x2001, 0x2002, 0x2003, 0x2004, 0x2005, 0x2006, 0x2007, 0x2008, 0x2009, 0x200A,
    0x2028, 0x2029, 0x202F, 0x205F, 0x3000]

/-- Whether `c` has the Unicode property `White_Space`. -/
def isBlank (c : Char) : Bool := blankCodes.contains c.toNat

/-- `s` without its leading blanks. -/
def trimLeft (s : List Char) : List Char := s.dropWhile isBlank

/-- `s` without its trailing blanks. -/
def trimRight (s : List Char) : List Char := (s.reverse.dropWhile isBlank).reverse

/-- `s` without its leading and trailing blanks. -/
def trim (s : List Char) : List Char := trimRight (trimLeft s)

end IngestPipeline.Text
