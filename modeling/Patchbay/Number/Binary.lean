/-!
# Binary64 values taken apart

A finite `Float` is a sign, a whole mantissa and a power of two. Everything that has to be exact
about a number (its decimal text, whether it is whole, the integer it is) is decided on these
three in `Nat` and `Int`, never in floating point.
-/

namespace Patchbay.Number

/-- A binary64 value as sign, mantissa and exponent: `finite s m q` stands for `m · 2 ^ q`,
negated when `s` holds. -/
inductive Binary where
  | nan
  | infinite (negative : Bool)
  | finite (negative : Bool) (mantissa : Nat) (exponent : Int)
deriving DecidableEq, Repr

namespace Binary

/-- The least exponent; all subnormal values have it. -/
def leastExponent : Int := -1074

/-- The mantissa of a power of two: below it the spacing of the values halves. -/
def hiddenBit : Nat := Nat.pow 2 52

/-- Reads the three fields of the interchange form. -/
def ofBits (bits : Nat) : Binary :=
  let negative := decide (Nat.pow 2 63 ≤ bits)
  let biased : Nat := bits / hiddenBit % Nat.pow 2 11
  let fraction : Nat := bits % hiddenBit
  if biased = 2047 then
    if fraction = 0 then infinite negative else nan
  else if biased = 0 then finite negative fraction leastExponent
  else finite negative (fraction + hiddenBit) (biased - 1075)

def ofFloat (x : Float) : Binary := ofBits x.toBits.toNat

/-- The integer that a whole value is; `none` for a value with a fraction, an infinity or NaN. -/
def toInt? : Binary → Option Int
  | nan | infinite _ => none
  | finite negative m q =>
    let magnitude : Option Nat :=
      if 0 ≤ q then some (m * Nat.pow 2 q.toNat)
      else if m % Nat.pow 2 (-q).toNat = 0 then some (m / Nat.pow 2 (-q).toNat)
      else none
    magnitude.map fun (n : Nat) => if negative then -(n : Int) else n

end Binary

/-- The integer that a float is, when it is one. Both zeros are `0`. -/
def wholeValue? (x : Float) : Option Int := (Binary.ofFloat x).toInt?

end Patchbay.Number
