import IngestPipeline.Decimal.Binary64

/-! # Shortest decimal numbers

The decimal number with the fewest digits that rounds to a given double, and among those of that
length the one nearest to it; of two equally near ones the one with the even last digit.

A positive double `m · 2^q` is the rounding of every real in an interval around it, whose ends
belong to it exactly when `m` is even. All comparisons are made on the grid `2^(q - 2)`, on which
the double and both ends of its interval are integers. -/

namespace IngestPipeline.Decimal

/-- A positive decimal number `digits · 10^scale`. -/
structure Digits where
  /-- The significant digits, read as one number. -/
  digits : Nat
  /-- The power of ten of the last digit. -/
  scale : Int
  deriving DecidableEq, Repr

/-- The reals that round to `m · 2^q`, in units of `2^(q - 2)`. -/
structure Interval where
  /-- The number itself. -/
  centre : Nat
  /-- The lower end. -/
  low : Nat
  /-- The upper end. -/
  high : Nat
  /-- Whether the ends belong to the interval. -/
  closed : Bool
  deriving DecidableEq, Repr

/-- The rounding interval of `m · 2^q`. Below a power of two the doubles lie twice as dense. -/
def Interval.of (m : Nat) (q : Int) : Interval where
  centre := 4 * m
  low := if m = Nat.pow 2 52 ∧ Binary64.minExponent < q then 4 * m - 1 else 4 * m - 2
  high := 4 * m + 2
  closed := m % 2 = 0

/-- The decimal exponent `e` with `10^e ≤ m · 2^q < 10^(e + 1)`, for positive `m`. -/
def floorLog10 (m : Nat) (q : Int) : Int :=
  -- 30103 / 100000 is the decimal logarithm of two, so the guess is off by one at most
  let guess := ((m.log2 + q) * 30103).fdiv 100000
  let atMost (e : Int) : Bool :=
    Nat.pow 10 e.toNat * Nat.pow 2 (-q).toNat ≤ m * Nat.pow 2 q.toNat * Nat.pow 10 (-e).toNat
  if atMost (guess + 1) then guess + 1 else if atMost guess then guess else guess - 1

/-- The neighbours of the interval's centre among the multiples of `10^scale`, as far as they lie
in the interval; the nearer one wins, and the even one of two equally near ones. -/
def Interval.onGrid? (i : Interval) (q scale : Int) : Option Nat :=
  -- both units as natural numbers, by a common factor
  let binary := Nat.pow 2 (q - 2).toNat * Nat.pow 10 (-scale).toNat
  let decimal := Nat.pow 10 scale.toNat * Nat.pow 2 (2 - q).toNat
  let inside (d : Nat) : Bool :=
    if i.closed then i.low * binary ≤ d * decimal && d * decimal ≤ i.high * binary
    else i.low * binary < d * decimal && d * decimal < i.high * binary
  let below := i.centre * binary / decimal
  let gapBelow := i.centre * binary - below * decimal
  let gapAbove := (below + 1) * decimal - i.centre * binary
  let belowFirst := gapBelow < gapAbove || (gapBelow == gapAbove && below % 2 == 0)
  match inside below && 0 < below, inside (below + 1) with
  | true, true => some (if belowFirst then below else below + 1)
  | true, false => some below
  | false, true => some (below + 1)
  | false, false => none

/-- Drop trailing zeros, at most `n` of them. -/
def Digits.normalize : Nat → Digits → Digits
  | 0, d => d
  | n + 1, d =>
      if d.digits % 10 = 0 ∧ d.digits ≠ 0 then normalize n ⟨d.digits / 10, d.scale + 1⟩ else d

/-- The first of the grids with `count`, `count + 1`, …, `count + more` digits that has a point in
the interval. -/
def shortestFrom (i : Interval) (q exponent : Int) (count : Nat) : Nat → Digits
  | 0 => ⟨(i.onGrid? q (exponent - count + 1)).getD 0, exponent - count + 1⟩
  | more + 1 =>
      match i.onGrid? q (exponent - count + 1) with
      | some d => ⟨d, exponent - count + 1⟩
      | none => shortestFrom i q exponent (count + 1) more

/-- The shortest decimal number that rounds to the positive double `m · 2^q`. Seventeen digits
always suffice. -/
def shortest (m : Nat) (q : Int) : Digits :=
  (shortestFrom (Interval.of m q) q (floorLog10 m q) 1 16).normalize 17

end IngestPipeline.Decimal
