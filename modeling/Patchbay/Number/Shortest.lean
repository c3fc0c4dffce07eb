import Patchbay.Number.Binary
/-!
# Shortest decimals

The decimal with the fewest digits that still reads back as a given binary value, and of those the
one nearest to it. Grids of powers of ten are tried from coarse to fine; the first grid with a
point inside the value's rounding interval gives the digits. All comparisons are between naturals.
-/

namespace Patchbay.Number

/-- Which of two equally near decimals is taken. -/
inductive Tie where
  | up
  | even
deriving DecidableEq, Repr

/-- `digits · 10 ^ exponent`. -/
structure Decimal where
  digits : Nat
  exponent : Int
deriving DecidableEq, Repr

namespace Shortest

/-- The rounding interval of `m · 2 ^ q`, in quarters of the unit `2 ^ q`: every real in it rounds
to the value. The ends belong to it when the mantissa is even. Below a power of two the interval
is half as wide. -/
structure Interval where
  low : Nat
  value : Nat
  high : Nat
  closed : Bool

def interval (m : Nat) (q : Int) : Interval where
  low := if m = Binary.hiddenBit ∧ Binary.leastExponent < q then 4 * m - 1 else 4 * m - 2
  value := 4 * m
  high := 4 * m + 2
  closed := m % 2 == 0

/-- Common denominators for comparing `d · 10 ^ k` with `x · 2 ^ e`: it is the comparison of
`d * decimalUnit` with `x * binaryUnit`. -/
def decimalUnit (k e : Int) : Nat := Nat.pow 10 k.toNat * Nat.pow 2 (-e).toNat

def binaryUnit (k e : Int) : Nat := Nat.pow 2 e.toNat * Nat.pow 10 (-k).toNat

def Interval.contains (i : Interval) (scaled unit : Nat) : Bool :=
  if i.closed then i.low * unit ≤ scaled && scaled ≤ i.high * unit
  else i.low * unit < scaled && scaled < i.high * unit

/-- The point of the grid `10 ^ k` to take for the value, if one of its two neighbours on that
grid lies in the interval. -/
def onGrid? (tie : Tie) (i : Interval) (k e : Int) : Option Nat :=
  let u := decimalUnit k e
  let b := binaryUnit k e
  let below := i.value * b / u
  let above := below + 1
  match i.contains (below * u) b, i.contains (above * u) b with
  | false, false => none
  | true, false => some below
  | false, true => some above
  | true, true =>
    let twice := 2 * (i.value * b)
    let middle := (below + above) * u
    if twice < middle then some below
    else if middle < twice then some above
    else match tie with
      | .up => some above
      | .even => some (if below % 2 = 0 then below else above)

/-- Tries the grids `10 ^ k`, `10 ^ (k - 1)`, …; the last one stands when none has a point. -/
def search (tie : Tie) (i : Interval) (e : Int) : Nat → Int → Decimal
  | 0, k => ⟨i.value * binaryUnit k e / decimalUnit k e, k⟩
  | steps + 1, k =>
    match onGrid? tie i k e with
    | some d => ⟨d, k⟩
    | none => search tie i e steps (k - 1)

/-- A power of ten above `m · 2 ^ q`: `30103 / 100000` is a little more than `log₁₀ 2`. -/
def coarsest (m : Nat) (q : Int) : Int := ((m.log2 + 1 + q) * 30103).fdiv 100000 + 2

end Shortest

/-- The shortest decimal that rounds to `m · 2 ^ q`, for `m ≠ 0`. Seventeen digits always
suffice, and the search starts at most three grids too coarse. -/
def shortest (tie : Tie) (m : Nat) (q : Int) : Decimal :=
  Shortest.search tie (Shortest.interval m q) (q - 2) 24 (Shortest.coarsest m q)

end Patchbay.Number
