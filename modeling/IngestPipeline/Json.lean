import IngestPipeline.Value

/-! # JSON trees and their text

* **`Json`**: a JSON tree; numbers are kept as the text they are written with, and objects as
  their members in order.
* **`Json.compact`**: the text without any space.
* **`Json.pretty`**: the text with one item or member a line, indented by two spaces a level.
* **`Value.toJson?`**: a document value as a JSON tree, if all its mapping keys have a text. -/

namespace IngestPipeline

/-- A JSON tree. -/
inductive Json where
  /-- The null literal. -/
  | null
  /-- A truth value. -/
  | bool (value : Bool)
  /-- A number, as it is written. -/
  | number (text : String)
  /-- A string. -/
  | string (value : String)
  /-- An array. -/
  | array (items : List Json)
  /-- An object, as its members in order. -/
  | object (members : List (String × Json))
  deriving Repr, Inhabited

namespace Json

/-- The lower-case hexadecimal digit of a number below sixteen. -/
def hexDigit (n : Nat) : Char := Char.ofNat (if n < 10 then 0x30 + n else 0x57 + n)

/-- A character inside a JSON string: quotes, backslashes and control characters are escaped, all
others stand for themselves. -/
def escape (c : Char) : List Char :=
  if c = '\x22' then ['\\', '\x22']
  else if c = '\\' then ['\\', '\\']
  else if c = '\x08' then ['\\', 'b']
  else if c = '\x0c' then ['\\', 'f']
  else if c = '\n' then ['\\', 'n']
  else if c = '\r' then ['\\', 'r']
  else if c = '\t' then ['\\', 't']
  -- the control characters without a letter of their own
  else if c.toNat < 0x20 then
    ['\\', 'u', '0', '0', hexDigit (c.toNat / 16), hexDigit (c.toNat % 16)]
  else [c]

/-- A JSON string literal. -/
def quoted (s : String) : List Char := '\x22' :: s.toList.flatMap escape ++ ['\x22']

/-- The text of a tree without children. -/
def leaf : Json → List Char
  | .null => "null".toList
  | .bool b => if b then "true".toList else "false".toList
  | .number text => text.toList
  | .string s => quoted s
  | .array _ => "[]".toList
  | .object _ => ['\x7b', '\x7d']

mutual

/-- The text without any space. -/
def compact : Json → List Char
  | .array xs => '[' :: compactItems xs ++ [']']
  | .object ms => '\x7b' :: compactMembers ms ++ ['\x7d']
  | j => j.leaf

/-- The items of an array, separated by commas. -/
def compactItems : List Json → List Char
  | [] => []
  | x :: xs => x.compact ++ (if xs.isEmpty then [] else [',']) ++ compactItems xs

/-- The members of an object, separated by commas. -/
def compactMembers : List (String × Json) → List Char
  | [] => []
  | (k, v) :: ms =>
      quoted k ++ ':' :: v.compact ++ (if ms.isEmpty then [] else [',']) ++ compactMembers ms

end

/-- A line break and the indentation of the given level. -/
def newLine (level : Nat) : List Char := '\n' :: List.replicate (2 * level) ' '

mutual

/-- The text with one item or member a line. `level` is the level of the tree's own line. -/
def prettyAt (level : Nat) : Json → List Char
  | .array (x :: xs) => '[' :: prettyItems (level + 1) (x :: xs) ++ newLine level ++ [']']
  | .object (m :: ms) => '\x7b' :: prettyMembers (level + 1) (m :: ms) ++ newLine level ++ ['\x7d']
  | j => j.leaf

/-- The items of an array, each on a line of its own. -/
def prettyItems (level : Nat) : List Json → List Char
  | [] => []
  | x :: xs =>
      newLine level ++ x.prettyAt level ++ (if xs.isEmpty then [] else [',']) ++
        prettyItems level xs

/-- The members of an object, each on a line of its own. -/
def prettyMembers (level : Nat) : List (String × Json) → List Char
  | [] => []
  | (k, v) :: ms =>
      newLine level ++ quoted k ++ ':' :: ' ' :: v.prettyAt level ++
        (if ms.isEmpty then [] else [',']) ++ prettyMembers level ms

end

/-- The indented text of a tree. -/
def pretty (j : Json) : String := String.ofList (j.prettyAt 0)

/-- The text of a tree on one line. -/
def toText (j : Json) : String := String.ofList j.compact

end Json

namespace Value

/-- The text of a mapping key as a member name. Null, numbers that are not finite and collections
have none. -/
def memberName? : Value → Option String
  | .float x => if x.isFinite then some (x.text .json) else none
  | v => v.text?

mutual

/-- The value as a JSON tree. Numbers that are not finite become null, and a mapping with a key
that has no text has no JSON form. What carries a tag is the only member of an object, under the
tag. -/
def toJson? : Value → Option Json
  | .null => some .null
  | .bool b => some (.bool b)
  | .int n => some (.number (toString n))
  | .float x => some (if x.isFinite then .number (x.text .json) else .null)
  | .string s => some (.string s)
  | .seq xs => (jsonItems? xs).map .array
  | .map es => (jsonMembers? es).map .object
  | .tagged tag v => v.toJson?.map fun json => .object [("!" ++ tagName tag, json)]

/-- The items of a sequence as JSON trees. -/
def jsonItems? : List Value → Option (List Json)
  | [] => some []
  | x :: xs => do return (← x.toJson?) :: (← jsonItems? xs)

/-- The entries of a mapping as members. -/
def jsonMembers? : List (Value × Value) → Option (List (String × Json))
  | [] => some []
  | (k, v) :: es => do return (← k.memberName?, ← v.toJson?) :: (← jsonMembers? es)

end

end Value

end IngestPipeline
