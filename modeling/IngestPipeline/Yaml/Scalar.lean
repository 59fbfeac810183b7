import IngestPipeline.Text.Numeral
import IngestPipeline.Value

/-! # Plain scalars

The meaning of an unquoted scalar is read off its text, in this order: null, truth value, integer,
double, and otherwise string.

* **`parseNull?`, `parseBool?`, `parseInt?`, `parseFloat?`**: one reading each.
* **`readPlain`**: the value of an unquoted scalar; an integer that is too wide for 64 bits and not
  too wide for 128 is refused.
* **`readsAsString`**: whether a text stands for itself when it is written without quotes. -/

namespace IngestPipeline.Yaml

/-- The spellings of null. -/
def parseNull? (s : List Char) : Option Unit :=
  if ["null", "Null", "NULL", "~"].contains (String.ofList s) then some () else none

/-- The spellings of the truth values. -/
def parseBool? (s : List Char) : Option Bool :=
  if ["true", "True", "TRUE"].contains (String.ofList s) then some true
  else if ["false", "False", "FALSE"].contains (String.ofList s) then some false
  else none

/-- Whether the text is a sign, at most, and several decimal digits the first of which is zero.
Such a text is a string. -/
def isZeroPadded (s : List Char) : Bool :=
  let digits := match s with
    | '-' :: rest => rest
    | '+' :: rest => rest
    | s => s
  match digits with
  | '0' :: d :: rest => (d :: rest).all Char.isDigit
  | _ => false

/-- The absolute value of an integer without its sign: with one of the marks `0x`, `0o`, `0b`, or
in decimal digits. -/
def magnitude? (s : List Char) : Option Nat :=
  match s with
  | '0' :: 'x' :: rest => Text.natural? 16 rest
  | '0' :: 'o' :: rest => Text.natural? 8 rest
  | '0' :: 'b' :: rest => Text.natural? 2 rest
  | s => Text.natural? 10 s

/-- What the spelling of an integer denotes. -/
inductive IntReading where
  /-- The text is no integer, or one beyond 128 bits. -/
  | none
  /-- An integer of 64 bits, signed or unsigned. -/
  | value (n : Int)
  /-- An integer that needs more than 64 bits, and at most 128. -/
  | tooWide
  deriving DecidableEq, Repr

/-- Read an integer with an optional sign. -/
def parseInt (s : List Char) : IntReading :=
  let signed? : Option Int :=
    if isZeroPadded s then none
    else match s with
      | '-' :: rest => (magnitude? rest).map fun n => -(n : Int)
      | '+' :: rest => (magnitude? rest).map fun n => (n : Int)
      | s => (magnitude? s).map fun n => (n : Int)
  match signed? with
  | none => .none
  | some n =>
      if -Int.pow 2 63 ≤ n ∧ n < Int.pow 2 64 then .value n
      else if -Int.pow 2 127 ≤ n ∧ n < Int.pow 2 128 then .tooWide
      else .none

/-- A decimal number with an optional minus sign, if its nearest double is finite. -/
def finiteDecimal? (s : List Char) : Option Binary64 := do
  let (negative, s) :=
    match s with
    | '-' :: rest => (true, rest)
    | s => (false, s)
  let (digits, places, exponent) ← Text.unsignedDecimal? s
  let x := Binary64.ofDecimal negative digits (exponent - places)
  if x.isFinite then some x else none

/-- Read a double: one of the spellings of the infinities and of not-a-number, or a decimal number
within the range of the format. -/
def parseFloat? (s : List Char) : Option Binary64 :=
  let text := String.ofList s
  if [".nan", ".NaN", ".NAN"].contains text then some .nan
  else if ["-.inf", "-.Inf", "-.INF"].contains text then some (.infinite true)
  else if [".inf", ".Inf", ".INF", "+.inf", "+.Inf", "+.INF"].contains text then
    some (.infinite false)
  else match s with
    | '+' :: '-' :: _ => none
    | '+' :: rest => finiteDecimal? rest
    | s => finiteDecimal? s

/-- The value of an unquoted scalar, or `none` for an integer that is too wide. -/
def readPlain (s : List Char) : Option Value :=
  if s.isEmpty || (parseNull? s).isSome then some .null
  else match parseBool? s with
    | some b => some (.bool b)
    | none =>
        match parseInt s with
        | .value n => some (.int n)
        | .tooWide => none
        | .none =>
            -- a padded number is a string, although it would read as a double
            match if isZeroPadded s then none else parseFloat? s with
            | some x => some (.float x)
            | none => some (.string (String.ofList s))

/-- Whether the text, written without quotes, reads as itself. Texts that only look like numbers
are kept apart as well. -/
def readsAsString (s : List Char) : Bool :=
  match readPlain s with
  | some (.string _) => !isZeroPadded s
  | _ => false

end IngestPipeline.Yaml
