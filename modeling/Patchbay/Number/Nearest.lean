import Patchbay.Number.Layout
/-!
# Reading numbers

`Decimal.toFloat` is the binary64 value nearest to a decimal. `parseFloat?` reads the free form
in which people type numbers: an optional sign, digits with an optional point and exponent, or
one of the words for NaN and infinity in any case.
-/

namespace Patchbay.Number

/-- The value of a run of decimal digits, continuing from `start`. -/
def digitsValue (start : Nat) (text : List Char) : Nat :=
  text.foldl (fun value c => value * 10 + (c.toNat - '0'.toNat)) start

/-- The nearest binary64 value. Decimals beyond every finite value, and below half the least
positive one, are settled by their order before any power of ten is formed. -/
def Decimal.toFloat (d : Decimal) : Float :=
  if d.digits = 0 then 0.0
  else if 400 < d.order then 1.0 / 0.0
  else if d.order < -400 then 0.0
  else if 0 ≤ d.exponent then Float.ofScientific d.digits false d.exponent.toNat
  else Float.ofScientific d.digits true (-d.exponent).toNat

/-- Splits a leading sign off. -/
def takeSign : List Char → Bool × List Char
  | '-' :: rest => (true, rest)
  | '+' :: rest => (false, rest)
  | rest => (false, rest)

/-- The exponent part of a number's text: nothing, or `e` with a signed run of digits. -/
def parseExponent? : List Char → Option Int
  | [] => some 0
  | c :: rest =>
    if c = 'e' ∨ c = 'E' then
      let (negative, digits) := takeSign rest
      if digits ≠ [] ∧ digits.all Char.isDigit then
        let n : Int := digitsValue 0 digits
        some (if negative then -n else n)
      else none
    else none

/-- Digits around an optional point, at least one of them, then an exponent. -/
def parseDecimal? (text : List Char) : Option Decimal :=
  let whole := text.takeWhile Char.isDigit
  let rest := text.dropWhile Char.isDigit
  let (fraction, rest) := match rest with
    | '.' :: rest => (rest.takeWhile Char.isDigit, rest.dropWhile Char.isDigit)
    | rest => ([], rest)
  if whole = [] ∧ fraction = [] then none
  else (parseExponent? rest).map fun e =>
    ⟨digitsValue (digitsValue 0 whole) fraction, e - fraction.length⟩

/-- Reads a number typed by hand. -/
def parseFloat? (text : String) : Option Float :=
  let (negative, body) := takeSign text.toList
  let word := String.ofList (body.map Char.toLower)
  let magnitude : Option Float :=
    if word = "inf" ∨ word = "infinity" then some (1.0 / 0.0)
    else if word = "nan" then some (0.0 / 0.0)
    else (parseDecimal? body).map Decimal.toFloat
  magnitude.map fun x => if negative then -x else x

end Patchbay.Number
