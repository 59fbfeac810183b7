import IngestPipeline.CommandLine.ValuePattern.Basic
import IngestPipeline.Text.Numeral

/-! # Escapes of value patterns

A backslash and what follows it denote a character, a set of characters, or a place between two
characters.

* **`Symbol`**: what an escape denotes.
* **`escape?`**: the escape at the front of a text. -/

namespace IngestPipeline.CommandLine.ValuePattern

/-- What an escape denotes. -/
inductive Symbol where
  /-- One character. -/
  | char (c : Char)
  /-- Any of several characters. -/
  | set
  /-- A place between two characters. -/
  | place
  deriving DecidableEq, Repr

/-- Read a number of hexadecimal digits, `n` being what the digits before them denote. -/
def hexNumber? (o : Options) (n : Nat) : (width : Nat) → List Char → Option (Nat × List Char)
  | 0, s => some (n, s)
  | _ + 1, [] => none
  | width + 1, c :: rest => do
      let d ← Text.digit? 16 c
      hexNumber? o (n * 16 + d) width (o.skip rest)

/-- The letters of the general categories as a whole. -/
def categoryLetters : List Char := ['c', 'l', 'm', 'n', 'p', 's', 'z']

/-- The control character that a letter behind a backslash stands for. -/
def controlEscape? : Char → Option Char
  | 'a' => some '\x07'
  | 'f' => some '\x0C'
  | 't' => some '\t'
  | 'n' => some '\n'
  | 'r' => some '\r'
  | 'v' => some '\x0B'
  | _ => none

/-- What one character behind a backslash denotes. Where a pattern speaks of octets, a set may not
reach beyond ASCII, and the edge of a word is known only there. Other characters of ASCII that are
neither letters nor digits stand for themselves. -/
def Symbol.ofLetter? (o : Options) (e : Char) : Option Symbol :=
  if ['d', 's', 'w'].contains e then some .set
  else if ['D', 'S', 'W'].contains e then if o.unicode then some .set else none
  else if ['A', 'z'].contains e then some .place
  else if ['b', 'B', '<', '>'].contains e then if o.unicode then none else some .place
  else if e.toNat < 0x80 && !e.isAlphanum then some (.char e)
  else (controlEscape? e).map .char

/-- The escape at the front of a text that follows a backslash, and the rest. -/
def escape? (o : Options) : List Char → Option (Symbol × List Char)
  | [] => none
  | e :: rest =>
      match Text.hexWidth? e with
      | some width => do
          let (n, rest) ← hexNumber? o 0 width (o.skip rest)
          let c ← Text.charOfCode? n
          if e = 'x' && !o.unicode && 0x80 ≤ n then none else some (.char c, rest)
      | none =>
          if e.toLower = 'p' then
            match o.skip rest with
            | c :: rest =>
                if o.unicode && categoryLetters.contains c.toLower then some (.set, o.skip rest)
                else none
            | [] => none
          else (Symbol.ofLetter? o e).map fun symbol => (symbol, rest)

end IngestPipeline.CommandLine.ValuePattern
