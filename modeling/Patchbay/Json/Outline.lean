import Patchbay.Json.Value
/-!
# The outline of a JSON text

Reading a JSON text never fails: it gives an outline, which keeps everything up to the first
fault and marks the place. Whoever takes the outline apart meets the fault when it gets there, so
that a value of the wrong shape is reported before a fault that comes later in the text, and the
rules that hold only for values that are kept (paired surrogates, numbers in range, bounded
nesting) are checked only where a value is kept.
-/

namespace Patchbay.Json

/-- A JSON text up to its first fault. -/
inductive Outline where
  | null
  | bool (b : Bool)
  /-- `none` is a number too large for binary64. -/
  | number (n : Option Number)
  /-- `none` is a text with an unpaired surrogate escape. -/
  | text (s : Option String)
  /-- `whole` tells whether the closing bracket was reached. -/
  | list (items : List Outline) (whole : Bool)
  | record (entries : List (Option String × Outline)) (whole : Bool)
  /-- No value starts here. -/
  | broken

/-! ## Leaves -/

def isSpace (c : Char) : Bool := c == ' ' || c == '\n' || c == '\t' || c == '\r'

/-- The text from its next character that is not white space. -/
def afterSpace (chars : List Char) : List Char := chars.dropWhile isSpace

/-- A text's content before surrogates are paired. -/
inductive Piece where
  | plain (c : Char)
  | unit (n : Nat)

def hexValue? (c : Char) : Option Nat :=
  if c.isDigit then some (c.toNat - '0'.toNat)
  else if 'a' ≤ c ∧ c ≤ 'f' then some (c.toNat - 'a'.toNat + 10)
  else if 'A' ≤ c ∧ c ≤ 'F' then some (c.toNat - 'A'.toNat + 10)
  else none

/-- Four hexadecimal digits. -/
def hexUnit? (a b c d : Char) : Option Nat := do
  return (((← hexValue? a) * 16 + (← hexValue? b)) * 16 + (← hexValue? c)) * 16 + (← hexValue? d)

/-- The character that a one-letter escape stands for. -/
def escapeLetter? : Char → Option Char
  | '"' => some '"'
  | '\\' => some '\\'
  | '/' => some '/'
  | 'b' => some '\x08'
  | 'f' => some '\x0c'
  | 'n' => some '\n'
  | 'r' => some '\r'
  | 't' => some '\t'
  | _ => none

/-- Reads up to the closing quote; `none` when the text has a fault before it. The pieces come
last first. -/
def readPieces (pieces : List Piece) : List Char → Option (List Piece × List Char)
  | [] => none
  | '"' :: rest => some (pieces, rest)
  | '\\' :: 'u' :: a :: b :: c :: d :: rest =>
    match hexUnit? a b c d with
    | some n => readPieces (.unit n :: pieces) rest
    | none => none
  | '\\' :: letter :: rest =>
    match escapeLetter? letter with
    | some c => readPieces (.plain c :: pieces) rest
    | none => none
  | c :: rest => if c.toNat < 0x20 then none else readPieces (.plain c :: pieces) rest

def isHighSurrogate (n : Nat) : Bool := 0xd800 ≤ n && n < 0xdc00

def isLowSurrogate (n : Nat) : Bool := 0xdc00 ≤ n && n < 0xe000

/-- Pairs the surrogates of a text given last piece first; `none` when one is left alone. -/
def pairUnits (after : List Char) : List Piece → Option (List Char)
  | [] => some after
  | .plain c :: rest => pairUnits (c :: after) rest
  | .unit low :: .unit high :: rest =>
    if isLowSurrogate low then
      if isHighSurrogate high then
        pairUnits (Char.ofNat (0x10000 + (high - 0xd800) * 0x400 + (low - 0xdc00)) :: after) rest
      else none
    else if isHighSurrogate low then none
    else pairUnits (Char.ofNat low :: after) (.unit high :: rest)
  | .unit n :: rest =>
    if isLowSurrogate n || isHighSurrogate n then none
    else pairUnits (Char.ofNat n :: after) rest

/-- Reads a text whose opening quote has been taken. -/
def readText (chars : List Char) : Option (Option String × List Char) :=
  (readPieces [] chars).map fun (pieces, rest) => ((pairUnits [] pieces).map String.ofList, rest)

/-! ## Numbers

The digits are gathered in a word of 64 bits, and the word is then scaled by a power of ten in
binary64. Digits that no longer fit are dropped, so the result can differ from the nearest value
in the last place. -/

/-- The largest gathered value. -/
def wordMax : Nat := Nat.pow 2 64 - 1

/-- Adds digits to the word as long as they fit: the word, how many were taken, and how many from
the first that did not fit. -/
def gatherDigits (word taken : Nat) : List Char → Nat × Nat × Nat
  | [] => (word, taken, 0)
  | c :: rest =>
    let next := word * 10 + (c.toNat - '0'.toNat)
    if wordMax < next then (word, taken, rest.length + 1)
    else gatherDigits next (taken + 1) rest

/-- Scales by steps of `10 ^ 308` until the power is in range; `none` beyond the largest float. -/
def scaleWord : Nat → Float → Int → Option Float
  | 0, _, _ => some 0.0
  | steps + 1, x, e =>
    if e.natAbs ≤ 308 then
      let power := Float.ofScientific 1 false e.natAbs
      if 0 ≤ e then
        let scaled := x * power
        if scaled.isInf then none else some scaled
      else some (x / power)
    else if x == 0.0 then some x
    else if 0 ≤ e then none
    else scaleWord steps (x / 1e308) (e + 308)

/-- The fraction part of a number's text: no point, or a point with digits after it. -/
def readFraction? : List Char → Option (Option (List Char) × List Char)
  | '.' :: rest =>
    let digits := rest.takeWhile Char.isDigit
    if digits.isEmpty then none else some (some digits, rest.dropWhile Char.isDigit)
  | rest => some (none, rest)

/-- The exponent part: nothing, or `e` with an optional sign and digits. -/
def readExponent? : List Char → Option (Option Int × List Char)
  | [] => some (none, [])
  | c :: rest =>
    if c = 'e' ∨ c = 'E' then
      let (negative, rest) := Number.takeSign rest
      let digits := rest.takeWhile Char.isDigit
      if digits.isEmpty then none
      else
        let n : Int := Number.digitsValue 0 digits
        some (some (if negative then -n else n), rest.dropWhile Char.isDigit)
    else some (none, c :: rest)

/-- The value of a number's parts. -/
def numberValue (negative : Bool) (whole : List Char) (fraction : Option (List Char))
    (exponent : Option Int) : Option Number :=
  let (word, _, extra) := gatherDigits 0 0 whole
  let signed (x : Float) : Number := .float (if negative then -x else x)
  match fraction, exponent with
  | none, none =>
    if 0 < extra then (scaleWord 4 (Float.ofNat word) extra).map signed
    else if !negative then some (.int word)
    else if word = 0 ∨ Nat.pow 2 63 < word then some (signed (Float.ofNat word))
    else some (.int (-word))
  | _, _ =>
    let (word, taken, _) := gatherDigits word 0 (fraction.getD [])
    (scaleWord 4 (Float.ofNat word) ((extra : Int) - taken + exponent.getD 0)).map signed

/-- Reads a number; `none` when none starts here. -/
def readNumber (chars : List Char) : Option (Option Number × List Char) := do
  let (negative, chars) := match chars with
    | '-' :: rest => (true, rest)
    | chars => (false, chars)
  let whole := chars.takeWhile Char.isDigit
  if whole.isEmpty || (whole.head? == some '0' && 1 < whole.length) then none
  let (fraction, rest) ← readFraction? (chars.dropWhile Char.isDigit)
  let (exponent, rest) ← readExponent? rest
  return (numberValue negative whole fraction exponent, rest)

/-! ## Containers -/

mutual

/-- Reads one value. The text after it is given unless a fault stopped the reading. -/
def readValue : Nat → List Char → Outline × Option (List Char)
  | 0, _ => (.broken, none)
  | fuel + 1, chars =>
    match afterSpace chars with
    | [] => (.broken, none)
    | 'n' :: 'u' :: 'l' :: 'l' :: rest => (.null, some rest)
    | 't' :: 'r' :: 'u' :: 'e' :: rest => (.bool true, some rest)
    | 'f' :: 'a' :: 'l' :: 's' :: 'e' :: rest => (.bool false, some rest)
    | '"' :: rest =>
      match readText rest with
      | some (s, rest) => (.text s, some rest)
      | none => (.broken, none)
    | '[' :: rest =>
      match afterSpace rest with
      | ']' :: rest => (.list [] true, some rest)
      | rest =>
        let (items, after) := readItems fuel rest
        (.list items after.isSome, after)
    | '{' :: rest =>
      match afterSpace rest with
      | '}' :: rest => (.record [] true, some rest)
      | rest =>
        let (entries, after) := readEntries fuel rest
        (.record entries after.isSome, after)
    | chars =>
      match readNumber chars with
      | some (n, rest) => (.number n, some rest)
      | none => (.broken, none)

/-- Reads the items of a list that has at least one, up to its bracket. -/
def readItems : Nat → List Char → List Outline × Option (List Char)
  | 0, _ => ([], none)
  | fuel + 1, chars =>
    match readValue fuel chars with
    | (item, none) => ([item], none)
    | (item, some rest) =>
      match afterSpace rest with
      | ']' :: rest => ([item], some rest)
      | ',' :: rest =>
        let (items, after) := readItems fuel rest
        (item :: items, after)
      | _ => ([item], none)

/-- Reads the entries of a record that has at least one, up to its bracket. -/
def readEntries : Nat → List Char → List (Option String × Outline) × Option (List Char)
  | 0, _ => ([], none)
  | fuel + 1, chars =>
    match afterSpace chars with
    | '"' :: rest =>
      match readText rest with
      | none => ([], none)
      | some (name, rest) =>
        match afterSpace rest with
        | ':' :: rest =>
          match readValue fuel rest with
          | (value, none) => ([(name, value)], none)
          | (value, some rest) =>
            match afterSpace rest with
            | '}' :: rest => ([(name, value)], some rest)
            | ',' :: rest =>
              let (entries, after) := readEntries fuel rest
              ((name, value) :: entries, after)
            | _ => ([(name, value)], none)
        | _ => ([(name, .broken)], none)
    | _ => ([], none)

end

/-- The outline of a text, and whether nothing but white space follows its value. Every step of
the reading takes a character or enters a container, so twice the length is enough fuel. -/
def outline (text : String) : Outline × Bool :=
  let chars := text.toList
  let (value, after) := readValue (2 * chars.length + 2) chars
  (value, match after with
    | some rest => (afterSpace rest).isEmpty
    | none => false)

mutual

/-- The outline of a value that is already whole. -/
def Outline.ofJson : Json → Outline
  | .null => .null
  | .bool b => .bool b
  | .number n => .number (some n)
  | .text s => .text (some s)
  | .list items => .list (ofItems items) true
  | .record fields => .record (ofFields fields) true

def Outline.ofItems : List Json → List Outline
  | [] => []
  | item :: rest => Outline.ofJson item :: Outline.ofItems rest

def Outline.ofFields : List (String × Json) → List (Option String × Outline)
  | [] => []
  | (name, value) :: rest => (some name, Outline.ofJson value) :: Outline.ofFields rest

end

mutual

/-- Whether no fault lies inside. This is all that is asked of a value that is not kept. -/
def Outline.isWhole : Outline → Bool
  | .null | .bool _ | .number _ | .text _ => true
  | .list items whole => whole && Outline.allWhole items
  | .record entries whole => whole && Outline.allEntriesWhole entries
  | .broken => false

def Outline.allWhole : List Outline → Bool
  | [] => true
  | item :: rest => item.isWhole && Outline.allWhole rest

def Outline.allEntriesWhole : List (Option String × Outline) → Bool
  | [] => true
  | (_, value) :: rest => value.isWhole && Outline.allEntriesWhole rest

end

end Patchbay.Json
