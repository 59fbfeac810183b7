/-! # Character classes of the YAML format

* **`isAllowed`**: characters that may occur in a document at all.
* **`isBreak`**, **`isSpacing`**, **`isSeparator`**: line breaks, blanks within a line, and both.
* **`isPrintable`**: characters that are written as themselves. -/

namespace IngestPipeline.Yaml

/-- A line break: carriage return, line feed, next line, line or paragraph separator. -/
def isBreak (c : Char) : Bool :=
  c = '\r' || c = '\n' || c = '\x85' || c = '\u2028' || c = '\u2029'

/-- A blank within a line: space or tab. -/
def isSpacing (c : Char) : Bool := c = ' ' || c = '\t'

/-- A blank or a line break. -/
def isSeparator (c : Char) : Bool := isSpacing c || isBreak c

/-- Whether a token may end before the text: at its end, at a blank or at a line break. -/
def atSeparator : List Char → Bool
  | [] => true
  | c :: _ => isSeparator c

/-- Whether the text is at its end or at a line break. -/
def atLineEnd : List Char → Bool
  | [] => true
  | c :: _ => isBreak c

/-- Characters that a document may contain: no control characters except tab and line breaks, and
no code points that are not characters. -/
def isAllowed (c : Char) : Bool :=
  let n := c.toNat
  n = 0x09 || n = 0x0A || n = 0x0D || (0x20 ≤ n && n ≤ 0x7E) || n = 0x85 ||
    (0xA0 ≤ n && n ≤ 0xD7FF) || (0xE000 ≤ n && n ≤ 0xFFFD) || 0x10000 ≤ n

/-- Characters that are written as themselves. The byte order mark is not one of them. -/
def isPrintable (c : Char) : Bool :=
  let n := c.toNat
  n = 0x0A || (0x20 ≤ n && n ≤ 0x7E) || (0xA0 ≤ n && n ≤ 0xD7FF) ||
    (0xE000 ≤ n && n ≤ 0xFFFD && n ≠ 0xFEFF) || 0x10000 ≤ n

/-- Letters, digits, `-` and `_`: the characters of anchors and tag handles. -/
def isWordChar (c : Char) : Bool := c.isAlphanum || c = '-' || c = '_'

/-- Whether a text contains the given character. -/
def oneOf (chars : String) (c : Char) : Bool := chars.toList.contains c

end IngestPipeline.Yaml
