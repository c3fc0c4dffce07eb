import Patchbay.Number.Shortest
/-!
# Layouts: how a number is written

The digits are those of `shortest`; a `Layout` says where they are written positionally, whether a
whole number keeps a point, and how an exponent looks. Each text the library writes numbers into
has one layout. `Layout.render` is total: NaN and the infinities have their own words.
-/

namespace Patchbay.Number

/-- The decisions that turn digits into text. `positional e` tells whether a number of decimal
order `e` (`10 ^ e ≤ |x| < 10 ^ (e + 1)`) is written without an exponent. -/
structure Layout where
  tie : Tie
  positional : Int → Bool
  /-- A whole number written positionally ends in `.0`. -/
  pointed : Bool
  /-- A non-negative exponent is written with its sign. -/
  signedExponent : Bool

namespace Layout

/-- Plain numbers in messages: never an exponent, nothing after a whole number. -/
def plain : Layout := ⟨.up, fun _ => true, false, false⟩

/-- Settings keep a point, so that a whole float is told from an integer. -/
def pointedPlain : Layout := { plain with pointed := true }

/-- Values quoted for inspection: positional from `10⁻⁴` to below `10¹⁶`. -/
def inspected : Layout := ⟨.up, fun e => -4 ≤ e && e < 16, true, false⟩

/-- Numbers in JSON: positional from `10⁻⁵` to below `10¹⁶`. -/
def json : Layout := ⟨.even, fun e => -5 ≤ e && e < 16, true, true⟩

end Layout

/-- A whole number's digits as text. -/
def digitText (n : Nat) : String := String.ofList (Nat.toDigits 10 n)

/-- `digits · 10 ^ exponent` with the point in its place. -/
def Decimal.positional (d : Decimal) (pointed : Bool) : String :=
  let text := Nat.toDigits 10 d.digits
  if 0 ≤ d.exponent then
    String.ofList (text ++ List.replicate d.exponent.toNat '0') ++ (if pointed then ".0" else "")
  else
    let places := (-d.exponent).toNat
    if text.length ≤ places then
      "0." ++ String.ofList (List.replicate (places - text.length) '0' ++ text)
    else
      String.ofList (text.take (text.length - places)) ++ "." ++
        String.ofList (text.drop (text.length - places))

/-- One digit, the others after a point, and the exponent. -/
def Decimal.scientific (d : Decimal) (order : Int) (signedExponent : Bool) : String :=
  let text := Nat.toDigits 10 d.digits
  let mantissa := match text with
    | [] => ""
    | [c] => String.ofList [c]
    | c :: rest => String.ofList (c :: '.' :: rest)
  let mark := if order < 0 then "e-" else if signedExponent then "e+" else "e"
  mantissa ++ mark ++ digitText order.natAbs

/-- The decimal order of the number: the exponent of its first digit. -/
def Decimal.order (d : Decimal) : Int := d.exponent + (Nat.toDigits 10 d.digits).length - 1

/-- A finite magnitude `m · 2 ^ q` in a layout. -/
def Layout.magnitude (layout : Layout) (m : Nat) (q : Int) : String :=
  if m = 0 then (if layout.pointed then "0.0" else "0")
  else
    let d := shortest layout.tie m q
    if layout.positional d.order then d.positional layout.pointed
    else d.scientific d.order layout.signedExponent

def Layout.render (layout : Layout) (x : Float) : String :=
  match Binary.ofFloat x with
  | .nan => "NaN"
  | .infinite negative => if negative then "-inf" else "inf"
  | .finite negative m q => (if negative then "-" else "") ++ layout.magnitude m q

/-- A number as messages write it. -/
def plainText (x : Float) : String := Layout.plain.render x

/-- `num / den` to the nearest natural, a half going to the even neighbour. -/
def roundHalfEven (num den : Nat) : Nat :=
  let low := num / den
  let rest := num % den
  if 2 * rest < den then low
  else if den < 2 * rest then low + 1
  else if low % 2 = 0 then low else low + 1

/-- A number with a fixed count of decimal places, rounded half to even. -/
def fixedText (places : Nat) (x : Float) : String :=
  match Binary.ofFloat x with
  | .nan => "NaN"
  | .infinite negative => if negative then "-inf" else "inf"
  | .finite negative m q =>
    let scaled :=
      roundHalfEven (m * Nat.pow 10 places * Nat.pow 2 q.toNat) (Nat.pow 2 (-q).toNat)
    let body :=
      if places = 0 then digitText scaled
      else
        let text := Nat.toDigits 10 scaled
        let padded := List.replicate (places + 1 - text.length) '0' ++ text
        String.ofList (padded.take (padded.length - places)) ++ "." ++
          String.ofList (padded.drop (padded.length - places))
    (if negative then "-" else "") ++ body

end Patchbay.Number
