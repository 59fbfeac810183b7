import IngestPipeline.Yaml.Lexeme.Flow
import IngestPipeline.Yaml.Token

/-! # Anchors, tags and directives

* **`Cursor.anchorName?`**: the name of an anchor or alias.
* **`Cursor.tag?`**: a tag in one of its three forms.
* **`Cursor.directive?`**: a line that states the version or defines a tag handle. -/

namespace IngestPipeline.Yaml

/-- Whether a character other than a blank may follow the name of an anchor. -/
def endsAnchor (c : Char) : Bool := oneOf "?:,]\x7d%@\x60" c

/-- The characters of a tag, beside letters, digits, `-` and `_`. -/
def isTagChar (c : Char) : Bool := isWordChar c || oneOf ";/?:@&=+$.!~*\x27()%" c

/-- The number of octets in the encoding of a character, by its first octet. -/
def octetCount? (octet : Nat) : Option Nat :=
  if octet < 0x80 then some 1
  else if 0xC0 ≤ octet ∧ octet < 0xE0 then some 2
  else if 0xE0 ≤ octet ∧ octet < 0xF0 then some 3
  else if 0xF0 ≤ octet ∧ octet < 0xF8 then some 4
  else none

/-- The octet that a percent sign and two hexadecimal digits at the front denote. -/
def escapedOctet? : List Char → Option Nat
  | '%' :: rest => hexNumber? 2 rest
  | _ => none

/-- The `n` escaped octets at the front, which continue the encoding of a character. -/
def trailingOctets? (s : List Char) : Nat → Option (List UInt8)
  | 0 => some []
  | n + 1 => do
      let octet ← escapedOctet? s
      if 0x80 ≤ octet ∧ octet < 0xC0 then
        return UInt8.ofNat octet :: (← trailingOctets? (s.drop 3) n)
      else none

/-- The escaped octets at the front, as many as the first one announces. Whether they encode a
character is not looked at. -/
def escapedOctets? (s : List Char) : Option (List UInt8) := do
  let octet ← escapedOctet? s
  let count ← octetCount? octet
  return UInt8.ofNat octet :: (← trailingOctets? (s.drop 3) (count - 1))

/-- The octets of a tag, escapes being decoded, and how many characters it takes. Only ASCII
characters stand for themselves. -/
def tagOctets? (isTag : Char → Bool) (s : List Char) : Option (List UInt8 × Nat) :=
  match s with
  | [] => some ([], 0)
  | c :: s =>
      if !isTag c then some ([], 0)
      else if c = '%' then do
        let octets ← escapedOctets? (c :: s)
        let (more, n) ← tagOctets? isTag (s.drop (3 * octets.length - 1))
        return (octets ++ more, n + 3 * octets.length)
      else do
        let (more, n) ← tagOctets? isTag s
        return (UInt8.ofNat c.toNat :: more, n + 1)
termination_by s.length
decreasing_by
  · simp only [List.length_drop, List.length_cons]
    omega
  · simp

namespace Cursor

/-- Read a name behind the indicator of an anchor or alias. -/
def anchorName? (c : Cursor) : Option (String × Cursor) :=
  let (name, next) := (c.skip 1).takeWhile isWordChar
  if !name.isEmpty && (next.atSeparator || next.at? endsAnchor) then
    some (String.ofList name, next)
  else none

/-- Read an exclamation mark, the letters behind it, and a closing exclamation mark if there is
one. -/
def tagHandle? (c : Cursor) : Option (List Char × Cursor) :=
  if !c.sees '!' then none
  else
    let (word, next) := (c.skip 1).takeWhile isWordChar
    if next.sees '!' then some ('!' :: word ++ ['!'], next.skip 1)
    else some ('!' :: word, next)

/-- Read a tag: a complete one in angle brackets, or a handle and the rest. A handle without a
closing mark is the primary handle, and its letters belong to the rest; a mark with nothing behind
it is complete. -/
def tag? (flow : Bool) (c : Cursor) : Option (Token × Cursor) := do
  let (token, next) ←
    if (c.skip 1).sees '<' then do
      let c := c.skip 2
      let (octets, n) ← tagOctets? (fun ch => isTagChar ch || oneOf ",[]" ch) c.rest
      let next := c.skip n
      if n = 0 || !next.sees '>' then none
      else some (Token.tag "" ⟨octets⟩, next.skip 1)
    else do
      let (handle, next) ← c.tagHandle?
      -- what follows the handle, up to the first character that no tag contains
      let (octets, n) ← tagOctets? isTagChar next.rest
      let behind := next.skip n
      if handle.length > 1 && handle.getLast? == some '!' then
        if n = 0 then none else some (.tag (String.ofList handle) ⟨octets⟩, behind)
      else
        let rest := Tag.ofText (String.ofList (handle.drop 1)) ++ ⟨octets⟩
        if rest.ended.octets.isEmpty then some (.tag "" .mark, behind)
        else some (.tag "!" rest, behind)
  if next.atSeparator || (flow && next.sees ',') then return (token, next) else none

/-- Read a decimal number. -/
def number? (c : Cursor) : Option (Nat × Cursor) :=
  let (digits, next) := c.takeWhile Char.isDigit
  if digits.isEmpty || 9 < digits.length then none
  else some (digits.foldl (fun n d => n * 10 + (d.toNat - 0x30)) 0, next)

/-- Read a directive line. -/
def directive? (c : Cursor) : Option (Token × Cursor) := do
  let (name, c) := (c.skip 1).takeWhile isWordChar
  if !c.atSeparator then none
  else
    let c := c.skipWhile isSpacing
    if name == "YAML".toList then
      let (major, c) ← c.number?
      if !c.sees '.' then none
      else
        let (minor, c) ← (c.skip 1).number?
        return (.version major minor, ← c.finishLine?)
    else if name == "TAG".toList then
      let (handle, c) ← c.tagHandle?
      if handle.length > 1 && handle.getLast? != some '!' then none
      else if !c.at? isSpacing then none
      else
        let c := c.skipWhile isSpacing
        let (octets, n) ← tagOctets? (fun ch => isTagChar ch || oneOf ",[]" ch) c.rest
        let c := c.skip n
        if n = 0 || !c.atSeparator then none
        else return (.handle (String.ofList handle) ⟨octets⟩, ← c.finishLine?)
    else none

end Cursor

end IngestPipeline.Yaml
