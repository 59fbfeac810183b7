/-! # Numerals

Readers for the digits that numbers and character codes are written in.

* **`natural? base s`**: the number that digits denote.
* **`unsignedDecimal? s`**: the parts of a decimal number with point and exponent.
* **`hexWidth?`, `charOfCode?`**: how many digits the code of a character has, and the character. -/

namespace IngestPipeline.Text

/-- The value of a digit in the given base, letters standing for the digits from ten on. -/
def digit? (base : Nat) (c : Char) : Option Nat :=
  let value :=
    if c.isDigit then some (c.toNat - '0'.toNat)
    else if 'a' ≤ c ∧ c ≤ 'f' then some (c.toNat - 'a'.toNat + 10)
    else if 'A' ≤ c ∧ c ≤ 'F' then some (c.toNat - 'A'.toNat + 10)
    else none
  value.filter (· < base)

/-- The number that a non-empty string of digits denotes. -/
def natural? (base : Nat) : List Char → Option Nat
  | [] => none
  | s => s.foldlM (fun n c => (digit? base c).map fun d => n * base + d) 0

/-- The parts of a decimal number without its sign: all its digits as one number, how many of
them stand behind the point, and the exponent. -/
def unsignedDecimal? (s : List Char) : Option (Nat × Nat × Int) := do
  let whole := s.takeWhile Char.isDigit
  let s := s.dropWhile Char.isDigit
  let (fraction, s) :=
    match s with
    | '.' :: rest => (rest.takeWhile Char.isDigit, rest.dropWhile Char.isDigit)
    | s => ([], s)
  let digits ← natural? 10 (whole ++ fraction)
  let exponent : Int ←
    match s with
    | [] => some 0
    | e :: rest =>
        if e = 'e' ∨ e = 'E' then
          match rest with
          | '-' :: rest => (natural? 10 rest).map fun n => -(n : Int)
          | '+' :: rest => (natural? 10 rest).map fun n => (n : Int)
          | rest => (natural? 10 rest).map fun n => (n : Int)
        else none
  some (digits, fraction.length, exponent)

/-- The number of hexadecimal digits behind a letter that takes some. -/
def hexWidth? : Char → Option Nat
  | 'x' => some 2
  | 'u' => some 4
  | 'U' => some 8
  | _ => none

/-- The character with a given code, unless the code is a surrogate or too large. -/
def charOfCode? (n : Nat) : Option Char :=
  if n < 0xD800 ∨ (0xDFFF < n ∧ n < 0x110000) then some (Char.ofNat n) else none

end IngestPipeline.Text
