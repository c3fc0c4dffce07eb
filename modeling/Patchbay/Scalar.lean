import Patchbay.Number.Nearest
/-!
# Scalars

Levels, frequencies and times are taken from any type with the operations of `Scalar`. The library
runs on `Float`; what it says about ramps, sums and envelopes does not depend on rounding and can
be stated over any other instance, such as an ordered field with a power function.

Comparisons may all be false for a value that is not a number, so `least`, `greatest` and `clamp`
say which side they take then.
-/

namespace Patchbay

/-- The arithmetic of levels, frequencies and times. -/
class Scalar (α : Type) extends Add α, Sub α, Mul α, Div α, Neg α, LT α, LE α, BEq α,
    OfScientific α where
  decLt : DecidableRel (α := α) (· < ·)
  decLe : DecidableRel (α := α) (· ≤ ·)
  /-- `base ^ exponent`. -/
  pow : α → α → α
  isFinite : α → Bool
  /-- Whether the value is written with a minus sign; a negative zero is. -/
  isSigned : α → Bool
  /-- The whole part of a non-negative value, zero for any other. -/
  toCount : α → Nat
  ofFloat : Float → α
  toFloat : α → Float

attribute [reducible, instance] Scalar.decLt Scalar.decLe

instance : Scalar Float where
  decLt := Float.decLt
  decLe := Float.decLe
  pow := Float.pow
  isFinite := Float.isFinite
  isSigned x := Nat.pow 2 63 ≤ x.toBits.toNat
  toCount x := x.toUInt64.toNat
  ofFloat x := x
  toFloat x := x

namespace Scalar

variable {α : Type} [Scalar α]

def ofNat (n : Nat) : α := OfScientific.ofScientific n false 0

/-- The largest finite binary64 value: the bound of a number without one. -/
def largest : α := ofNat ((Nat.pow 2 53 - 1) * Nat.pow 2 971)

/-- The largest finite binary32 value: the bound of a sample. -/
def largestSample : α := ofNat ((Nat.pow 2 24 - 1) * Nat.pow 2 104)

/-- The greater of two; the first when they are equal, the other when one is not a number. -/
def greatest (a b : α) : α := if a == a then (if a < b then b else a) else b

/-- The lesser of two; the first when they are equal, the other when one is not a number. -/
def least (a b : α) : α := if a == a then (if b < a then b else a) else b

/-- The nearest point of `[low, high]`. What is not a number stays as it is. -/
def clamp (low high x : α) : α :=
  let raised := if x < low then low else x
  if high < raised then high else raised

/-- Two numbers on the same side of zero, signed zeros counting by their sign. -/
def sameSign (a b : α) : Bool := a == a && b == b && isSigned a == isSigned b

/-- Milliseconds in seconds: the whole seconds and the rest are converted on their own. -/
def ofMilliseconds (ms : Nat) : α :=
  ofNat (ms / 1000) + ofNat (ms % 1000 * 1000000) / ofNat 1000000000

end Scalar

end Patchbay
