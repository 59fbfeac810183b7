import IngestPipeline.Yaml.Char
import IngestPipeline.Yaml.Scalar
import IngestPipeline.Json

/-! # Writing YAML

Values are written in block style with two spaces a level and without wrapping lines. Entries of a
sequence that is the value of a mapping key stand below the key without further indentation, and a
collection that follows a dash, a question mark or the colon below it starts on the same line.

* **`Quality.of s`**: which styles the text `s` can be written in.
* **`scalarText`**: a text in the style chosen for it.
* **`print`**: a whole value. -/

namespace IngestPipeline.Yaml

/-! ### Which styles can hold a text -/

/-- Which styles can hold a text. -/
structure Quality where
  /-- The text can stand without quotes. -/
  plain : Bool
  /-- The text can stand in single quotes. -/
  single : Bool
  /-- The text can stand in a literal block. -/
  block : Bool
  deriving DecidableEq, Repr

/-- Whether a character may not begin a text without quotes, given what follows it. -/
def barsFirst (c : Char) (rest : List Char) : Bool :=
  oneOf "#,[]&*!|>%@\x7b\x7d\x27\x22\x60" c ||
    (oneOf "?:-" c && (rest.isEmpty || rest.head?.any fun d => isSeparator d || d = '\x00'))

/-- Whether a character may not stand inside a text without quotes, given its neighbours: a colon
before a blank or the end, and a number sign after a blank. -/
def barsLater (before c : Char) (rest : List Char) : Bool :=
  (c = ':' && (rest.isEmpty || rest.head?.any fun d => isSeparator d || d = '\x00')) ||
    (c = '#' && (isSeparator before || before = '\x00'))

/-- Whether some character behind the first bars the text from standing without quotes. -/
def hasBarAfter : Char → List Char → Bool
  | _, [] => false
  | before, c :: rest => barsLater before c rest || hasBarAfter c rest

/-- Whether a text would be taken for something else if it stood without quotes. -/
def hasIndicator (s : List Char) : Bool :=
  match s with
  | [] => false
  | c :: rest =>
      ['-', '-', '-'].isPrefixOf s || ['.', '.', '.'].isPrefixOf s ||
        barsFirst c rest || hasBarAfter c rest

/-- Whether a character of the first class is directly followed by one of the second. -/
def hasPair (p q : Char → Bool) : List Char → Bool
  | c :: d :: rest => (p c && q d) || hasPair p q (d :: rest)
  | _ => false

/-- A space, and no other blank. -/
def isSpace (c : Char) : Bool := c = ' '

/-- The styles that can hold a text. -/
def Quality.of (s : List Char) : Quality :=
  -- blanks at either end, or around a line break, are lost without quotes
  let edge (c : Char) := isSpace c || isBreak c
  let ragged := s.head?.any edge || s.getLast?.any edge
  let trailingSpace := s.getLast?.any isSpace
  let breakSpace := hasPair isBreak isSpace s
  let unquotable := hasPair isSpace isBreak s || s.any fun c => !isPrintable c
  { plain := !(s.isEmpty || ragged || breakSpace || unquotable || s.any isBreak || hasIndicator s)
    single := !(breakSpace || unquotable)
    block := !(s.isEmpty || trailingSpace || unquotable) }

/-! ### Texts in each style -/

/-- `n` spaces. -/
def spaces (n : Nat) : List Char := List.replicate n ' '

/-- The `width` upper-case hexadecimal digits of `n`. -/
def hexText (width n : Nat) : List Char :=
  let digits := (Nat.toDigits 16 n).map Char.toUpper
  List.replicate (width - digits.length) '0' ++ digits

/-- A character inside double quotes. -/
def escapeDouble (c : Char) : List Char :=
  if isPrintable c && !isBreak c && c ≠ '\x22' && c ≠ '\\' then [c]
  else match c.toNat with
    | 0x00 => ['\\', '0']
    | 0x07 => ['\\', 'a']
    | 0x08 => ['\\', 'b']
    | 0x09 => ['\\', 't']
    | 0x0A => ['\\', 'n']
    | 0x0B => ['\\', 'v']
    | 0x0C => ['\\', 'f']
    | 0x0D => ['\\', 'r']
    | 0x1B => ['\\', 'e']
    | 0x22 => ['\\', '\x22']
    | 0x5C => ['\\', '\\']
    | 0x85 => ['\\', 'N']
    | 0xA0 => ['\\', '_']
    | 0x2028 => ['\\', 'L']
    | 0x2029 => ['\\', 'P']
    | n =>
        if n ≤ 0xFF then '\\' :: 'x' :: hexText 2 n
        else if n ≤ 0xFFFF then '\\' :: 'u' :: hexText 4 n
        else '\\' :: 'U' :: hexText 8 n

/-- A text in double quotes. -/
def doubleQuoted (s : List Char) : List Char := '\x22' :: s.flatMap escapeDouble ++ ['\x22']

/-- Copy a text character by character, indenting every line that is not empty. `broken` says
whether a line was just begun. -/
def indentLines (indent : Nat) (copy : Char → List Char) : Bool → List Char → List Char
  | _, [] => []
  | broken, c :: s =>
      if isBreak c then c :: indentLines indent copy true s
      else (if broken then spaces indent else []) ++ copy c ++ indentLines indent copy false s

/-- A text in single quotes, quotes inside it being doubled. -/
def singleQuoted (indent : Nat) (s : List Char) : List Char :=
  let quote (c : Char) := if c = '\x27' then [c, c] else [c]
  -- a closing quote on a line of its own is indented like the text
  let close := if s.getLast?.any isBreak then spaces indent else []
  '\x27' :: indentLines indent quote false s ++ close ++ ['\x27']

/-- What stands behind the bar of a literal block: an indentation hint if the text starts with a
space or line break, then `-` if it does not end with a line break and `+` if it ends with several
or is nothing but one. -/
def literalHeader (s : List Char) : List Char :=
  let hint := if s.head?.any fun c => isSpace c || isBreak c then ['2'] else []
  let chomp := match s.reverse with
    | [] => ['-']
    | [c] => if isBreak c then ['+'] else ['-']
    | c :: d :: _ => if !isBreak c then ['-'] else if isBreak d then ['+'] else []
  '|' :: hint ++ chomp

/-- A text as a literal block, up to and including its last line break. -/
def literal (indent : Nat) (s : List Char) : List Char :=
  let close := if s.getLast?.any isBreak then [] else ['\n']
  literalHeader s ++ '\n' :: indentLines indent (fun c => [c]) true s ++ close

/-- A text on one line: without quotes if it then still reads as itself, otherwise in single
quotes, and in double quotes where these cannot hold it. -/
def inlineText (indent : Nat) (s : List Char) : List Char :=
  let quality := Quality.of s
  if quality.plain && readsAsString s then s
  else if quality.single then singleQuoted indent s
  else doubleQuoted s

/-- A text and the line break behind it. A text with line feeds becomes a literal block if that
can hold it. -/
def stringLine (indent : Nat) (s : List Char) : List Char :=
  if s.contains '\n' then
    if (Quality.of s).block then literal indent s else doubleQuoted s ++ ['\n']
  else inlineText indent s ++ ['\n']

/-! ### Whole values -/

/-- The text of a scalar that is no string, or of a collection taken as empty. -/
def plainLeaf : Value → String
  | .null => "null"
  | .bool b => if b then "true" else "false"
  | .int n => toString n
  | .float x => x.text .yaml
  | .string s => s
  | .seq _ => "[]"
  | .map _ => "\x7b\x7d"
  | .tagged _ _ => "null"

/-- A value without parts, and the line break behind it. -/
def leafLine (indent : Nat) : Value → List Char
  | .string s => stringLine indent s.toList
  | v => (plainLeaf v).toList ++ ['\n']

/-- Whether a mapping key fits in front of its colon: an empty collection, or a scalar on one line
of at most 128 bytes. -/
def isSimpleKey : Value → Bool
  | .string s => !s.toList.any isBreak && s.utf8ByteSize ≤ 128
  | .seq xs => xs.isEmpty
  | .map es => es.isEmpty
  | .tagged _ _ => false
  | _ => true

/-- The text of a simple key. -/
def keyText (indent : Nat) : Value → List Char
  | .string s => inlineText indent s.toList
  | v => (plainLeaf v).toList

mutual

/-- A value behind an indicator that opened its line at column `indent`. -/
def printCompact (indent : Nat) : Value → List Char
  | .seq (x :: xs) => ' ' :: printItems (indent + 2) [] (x :: xs)
  | .map (e :: es) => ' ' :: printEntries (indent + 2) [] (e :: es)
  | .tagged _ v => printCompact indent v
  | v => ' ' :: leafLine (indent + 2) v

/-- A value behind the colon of a simple key of a mapping at column `indent`. -/
def printValue (indent : Nat) : Value → List Char
  | .seq (x :: xs) => '\n' :: printItems indent (spaces indent) (x :: xs)
  | .map (e :: es) => '\n' :: printEntries (indent + 2) (spaces (indent + 2)) (e :: es)
  | .tagged _ v => printValue indent v
  | v => ' ' :: leafLine (indent + 2) v

/-- The items of a sequence, each behind a dash. `lead` stands in front of the first one. -/
def printItems (indent : Nat) (lead : List Char) : List Value → List Char
  | [] => []
  | x :: xs => lead ++ '-' :: printCompact indent x ++ printItems indent (spaces indent) xs

/-- The entries of a mapping. A key that is not simple is written behind a question mark, and its
value behind a colon on a new line. -/
def printEntries (indent : Nat) (lead : List Char) : List (Value × Value) → List Char
  | [] => []
  | (k, v) :: es =>
      (if isSimpleKey k then lead ++ keyText (indent + 2) k ++ ':' :: printValue indent v
        else lead ++ '?' :: printCompact indent k ++ spaces indent ++ ':' :: printCompact indent v)
        ++ printEntries indent (spaces indent) es

end

/-- A value as a document. -/
def print : Value → String
  | .seq (x :: xs) => String.ofList (printItems 0 [] (x :: xs))
  | .map (e :: es) => String.ofList (printEntries 0 [] (e :: es))
  | v => String.ofList (leafLine 2 v)

mutual

/-- A JSON tree as a value. A number has the value of its text. -/
def ofJson : Json → Value
  | .null => .null
  | .bool b => .bool b
  | .number text => (readPlain text.toList).getD .null
  | .string s => .string s
  | .array xs => .seq (ofJsonItems xs)
  | .object ms => .map (ofJsonMembers ms)

/-- The items of an array as values. -/
def ofJsonItems : List Json → List Value
  | [] => []
  | x :: xs => ofJson x :: ofJsonItems xs

/-- The members of an object as entries. -/
def ofJsonMembers : List (String × Json) → List (Value × Value)
  | [] => []
  | (k, v) :: ms => (.string k, ofJson v) :: ofJsonMembers ms

end

end IngestPipeline.Yaml
