import IngestPipeline.Decimal.Shortest

/-! # Doubles as text

A double is written with its shortest digits: positionally, with at least one decimal, when its
decimal exponent is between `-5` and `15`, and with an exponent otherwise. What the formats differ
in is a record, **`FloatStyle`**.

* **`FloatStyle.yaml`**: `1e16`, `.inf`, `-.inf`, `.nan`.
* **`FloatStyle.json`**: `1e+16`; there is no text for the numbers that are not finite. -/

namespace IngestPipeline

/-- How a format writes doubles. -/
structure FloatStyle where
  /-- What stands before a positive exponent. -/
  exponentSign : String
  /-- The text of the infinity of each sign. -/
  infinity : (negative : Bool) → String
  /-- The text of not-a-number. -/
  notANumber : String

/-- Numbers in YAML documents. -/
def FloatStyle.yaml : FloatStyle :=
  ⟨"", fun negative => if negative then "-.inf" else ".inf", ".nan"⟩

/-- Numbers in JSON documents, where a number that is not finite becomes `null`. -/
def FloatStyle.json : FloatStyle := ⟨"+", fun _ => "null", "null"⟩

/-- The text of a positive decimal number. `exponent` is the power of ten of the first digit. -/
def Decimal.Digits.text (style : FloatStyle) (d : Decimal.Digits) : String :=
  let digits := (toString d.digits).toList
  let exponent : Int := digits.length - 1 + d.scale
  if 0 ≤ d.scale ∧ exponent ≤ 15 then
    String.ofList (digits ++ List.replicate d.scale.toNat '0') ++ ".0"
  else if 0 ≤ exponent ∧ exponent ≤ 15 then
    let whole := (exponent + 1).toNat
    String.ofList (digits.take whole) ++ "." ++ String.ofList (digits.drop whole)
  else if -5 ≤ exponent ∧ exponent < 0 then
    "0." ++ String.ofList (List.replicate (-exponent - 1).toNat '0' ++ digits)
  else
    let mantissa :=
      match digits with
      | first :: second :: more => String.ofList (first :: '.' :: second :: more)
      | short => String.ofList short
    let sign := if exponent < 0 then "-" else style.exponentSign
    -- the minus sign of the exponent belongs to every style, a plus sign to some
    mantissa ++ "e" ++ sign ++ toString exponent.natAbs

/-- The text of a double in the given style. -/
def Binary64.text (style : FloatStyle) : Binary64 → String
  | .nan => style.notANumber
  | .infinite negative => style.infinity negative
  | .finite negative m q =>
      (if negative then "-" else "") ++
        (if m = 0 then "0.0" else (Decimal.shortest m q).text style)

end IngestPipeline
