/-! # Double precision numbers

A double is kept as an exact dyadic number `±m · 2^q`, an infinity or not-a-number, so everything
said about it is said in integer arithmetic.

* **`Binary64`**: the values of the 64-bit format.
* **`Binary64.ofDecimal`**: the double nearest to a decimal number, ties going to the even
  mantissa. -/

namespace IngestPipeline

/-- A double precision number. A finite one is `±mantissa · 2^exponent`. -/
inductive Binary64 where
  /-- Not a number. -/
  | nan
  /-- The infinity of the given sign. -/
  | infinite (negative : Bool)
  /-- The number `±mantissa · 2^exponent`. -/
  | finite (negative : Bool) (mantissa : Nat) (exponent : Int)
  deriving DecidableEq, Repr

namespace Binary64

/-- The exponent of the smallest positive double. -/
def minExponent : Int := -1074

/-- The largest exponent of a mantissa with 53 binary digits. -/
def maxExponent : Int := 971

/-- Whether the number is finite. -/
def isFinite : Binary64 → Bool
  | .finite .. => true
  | _ => false

/-- Equality of numbers: the two zeros are equal, and not-a-number equals itself. -/
def same : Binary64 → Binary64 → Bool
  | .finite s m q, .finite t n r => (m == 0 && n == 0) || (s == t && m == n && q == r)
  | x, y => x == y

/-- `num / den` rounded to the nearest natural number, ties going to the even one. -/
def roundDiv (num den : Nat) : Nat :=
  let quotient := num / den
  let twice := 2 * (num % den)
  if twice < den then quotient
  else if den < twice then quotient + 1
  else if quotient % 2 = 0 then quotient else quotient + 1

/-- The exponent `e` with `2^e ≤ num / den < 2^(e + 1)`, for positive `num` and `den`. -/
def floorLog2 (num den : Nat) : Int :=
  let e : Int := (num.log2 : Int) - (den.log2 : Int)
  if den * Nat.pow 2 e.toNat ≤ num * Nat.pow 2 (-e).toNat then e else e - 1

/-- The double nearest to the positive quotient `num / den`. -/
def ofQuotient (negative : Bool) (num den : Nat) : Binary64 :=
  let q := max minExponent (floorLog2 num den - 52)
  let m := roundDiv (num * Nat.pow 2 (-q).toNat) (den * Nat.pow 2 q.toNat)
  -- rounding up may have carried into a new binary digit
  let (m, q) := if m = Nat.pow 2 53 then (Nat.pow 2 52, q + 1) else (m, q)
  if maxExponent < q then .infinite negative else .finite negative m q

/-- The double nearest to `±digits · 10^scale`. Numbers whose decimal exponent is far outside the
format's range need no arithmetic: they are an infinity or a zero. -/
def ofDecimal (negative : Bool) (digits : Nat) (scale : Int) : Binary64 :=
  if digits = 0 then .finite negative 0 minExponent
  else
    let magnitude : Int := (Nat.toDigits 10 digits).length + scale
    if 320 < magnitude then .infinite negative
    else if magnitude < -340 then .finite negative 0 minExponent
    else ofQuotient negative (digits * Nat.pow 10 scale.toNat) (Nat.pow 10 (-scale).toNat)

end Binary64

end IngestPipeline
