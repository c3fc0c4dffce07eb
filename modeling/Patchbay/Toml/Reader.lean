import Patchbay.Number.Nearest
import Patchbay.Toml.Value
/-!
# Reading TOML

`Toml.read` takes a text as TOML 1.0 and gives its table, or nothing when the text is not
well-formed or defines something twice. Where several forms can begin alike, the longest form is
tried first; a form that breaks off inside leaves text that no other form accepts.
-/

namespace Patchbay.Toml

/-- Takes something from the front of a text, or fails. -/
abbrev Reader := StateT (List Char) Option

namespace Reader

/-- The number of levels that lists and braces, or the parts of a key, must stay below. -/
def levels : Nat := 80

/-! ## Characters -/

/-- One character of a class. -/
def one (p : Char → Bool) : Reader Char
  | c :: rest => if p c then some (c, rest) else none
  | [] => none

def char (c : Char) : Reader Unit := do let _ ← one (· == c)

def word (s : String) : Reader Unit := s.toList.forM char

/-- As many characters of a class as there are, perhaps none. -/
def span (p : Char → Bool) : Reader (List Char) := fun text => some (text.span p)

/-- As many characters of a class as there are, at least one. -/
def span1 (p : Char → Bool) : Reader (List Char) := do return (← one p) :: (← span p)

/-- What a reader takes, if it takes anything. -/
def maybe {β : Type} (read : Reader β) : Reader (Option β) := (some <$> read) <|> pure none

def peek : Reader (Option Char) := fun text => some (text.head?, text)

def atEnd : Reader Unit
  | [] => some ((), [])
  | _ => none

/-- What a reader takes again and again until it fails, at most `times` times. -/
def many {β : Type} (read : Reader β) : Nat → Reader (List β)
  | 0 => pure []
  | times + 1 => (do let b ← read; return b :: (← many read times)) <|> pure []

/-- Readings with a separator between each two, at least one. -/
def separated {β : Type} (read : Reader β) (separator : Reader Unit) (times : Nat) :
    Reader (List β) := do
  return (← read) :: (← many (do separator; read) times)

def isGap (c : Char) : Bool := c == ' ' || c == '\t'

/-- What may stand in comments and literal text: everything but control characters. -/
def isPlain (c : Char) : Bool := c == '\t' || (' ' ≤ c && c != '\x7f')

def gap : Reader Unit := do let _ ← span isGap

def newline : Reader Unit := do
  let _ ← maybe (char '\r')
  char '\n'

def comment : Reader Unit := do
  char '#'
  let _ ← span isPlain

/-- The rest of a line that has been read. -/
def lineEnd : Reader Unit := do
  gap
  let _ ← maybe comment
  newline <|> atEnd

/-- Gaps, comments and line breaks inside a list. -/
def spacing (times : Nat) : Reader Unit := do
  let _ ← many (discard (span1 isGap) <|> newline <|> do comment; newline) times

/-! ## Text -/

def escapeLetter? : Char → Option Char
  | 'b' => some '\x08'
  | 'f' => some '\x0c'
  | 'n' => some '\n'
  | 'r' => some '\r'
  | 't' => some '\t'
  | '\\' => some '\\'
  | '"' => some '"'
  | _ => none

def hexValue? (c : Char) : Option Nat :=
  if c.isDigit then some (c.toNat - 48)
  else if 'a' ≤ c ∧ c ≤ 'f' then some (c.toNat - 87)
  else if 'A' ≤ c ∧ c ≤ 'F' then some (c.toNat - 55)
  else none

/-- The number that `count` hexadecimal digits write. -/
def hexDigits (count : Nat) : Reader Nat := do
  let digits ← (List.replicate count ()).mapM fun _ => one fun c => (hexValue? c).isSome
  return digits.foldl (fun n c => 16 * n + (hexValue? c).getD 0) 0

def charOf? (n : Nat) : Option Char := if n.isValidChar then some (Char.ofNat n) else none

/-- An escaped character. -/
def escaped : Reader (List Char) := do
  char '\\'
  let c ← one fun _ => true
  if c == 'u' then return [← StateT.lift (charOf? (← hexDigits 4))]
  else if c == 'U' then return [← StateT.lift (charOf? (← hexDigits 8))]
  else return [← StateT.lift (escapeLetter? c)]

/-- Text on one line between double quotes. -/
def quoted (times : Nat) : Reader String := do
  char '"'
  let parts ← many (span1 (fun c => isPlain c && c != '"' && c != '\\') <|> escaped) times
  char '"'
  return String.ofList parts.flatten

/-- Text on one line between single quotes. -/
def literal : Reader String := do
  char '\''
  let text ← span fun c => isPlain c && c != '\''
  char '\''
  return String.ofList text

/-- One or two of the quotes that delimit a text, when the text goes on or ends after them. -/
def looseQuotes (quote : Char) : Reader (List Char) := fun text =>
  let quotes := (text.takeWhile (· == quote)).length
  let loose := if quotes < 3 then quotes else quotes - 3
  if loose = 1 ∨ loose = 2 then some (text.take loose, text.drop loose) else none

/-- Text over several lines between three quotes each. -/
def longText (quote : Char) (part : Reader (List Char)) (times : Nat) : Reader String := do
  let delimiter := String.ofList [quote, quote, quote]
  word delimiter
  let _ ← maybe newline
  let parts ← many (part <|> (do newline; return ['\n']) <|> looseQuotes quote) times
  word delimiter
  return String.ofList parts.flatten

/-- A line break that an escape takes away, with the gaps around it. -/
def joinedLines (times : Nat) : Reader (List Char) := do
  char '\\'
  gap
  newline
  let _ ← many (discard (span1 isGap) <|> newline) times
  return []

def longQuoted (times : Nat) : Reader String :=
  longText '"'
    (span1 (fun c => isPlain c && c != '"' && c != '\\') <|> joinedLines times <|> escaped) times

def longLiteral (times : Nat) : Reader String :=
  longText '\'' (span1 fun c => isPlain c && c != '\'') times

def text (times : Nat) : Reader String :=
  longQuoted times <|> quoted times <|> longLiteral times <|> literal

/-! ## Numbers, dates and times -/

/-- Digits that single underscores may stand between, without the underscores. -/
def digitsBy (p : Char → Bool) (times : Nat) : Reader (List Char) := do
  let first ← one p
  let rest ← many (do let _ ← maybe (char '_'); one p) times
  return first :: rest

def sign : Reader (List Char) := do return (← maybe (one fun c => c == '+' || c == '-')).toList

/-- A whole number without leading zeros, in digits. -/
def wholeDigits (times : Nat) : Reader (List Char) := do
  if (← peek) == some '0' then return [← one fun _ => true] else digitsBy Char.isDigit times

def signed (negative : Bool) (n : Nat) : Int := if negative then -n else n

/-- A number that a signed word of 64 bits can hold. -/
def inWord (n : Int) : Reader Int :=
  if -(Nat.pow 2 63 : Int) ≤ n ∧ n < Nat.pow 2 63 then pure n else failure

/-- The digits of a base behind its mark. -/
def based (mark : String) (base : Nat) (times : Nat) : Reader Int := do
  word mark
  let digits ← digitsBy (fun c => (hexValue? c).any (· < base)) times
  inWord (digits.foldl (fun n c => base * n + (hexValue? c).getD 0) 0 : Nat)

def decimal (times : Nat) : Reader Int := do
  let mark ← sign
  let digits ← wholeDigits times
  inWord (signed (mark == ['-']) (Number.digitsValue 0 digits))

def exponent (times : Nat) : Reader (List Char) := do
  let e ← one fun c => c == 'e' || c == 'E'
  return e :: ((← sign) ++ (← digitsBy Char.isDigit times))

def fraction (times : Nat) : Reader (List Char) := do
  char '.'
  return '.' :: (← digitsBy Char.isDigit times)

/-- A number with a fraction or an exponent. One above all finite numbers is refused. -/
def float (times : Nat) : Reader Float := do
  let whole := (← sign) ++ (← wholeDigits times)
  let tail ← exponent times <|>
    do return (← fraction times) ++ ((← maybe (exponent times)).getD [])
  let x ← StateT.lift (Number.parseFloat? (String.ofList (whole ++ tail)))
  if x.isInf && 0.0 < x then failure else pure x

def specialFloat : Reader Float := do
  let mark ← sign
  let x ← (do word "inf"; pure (1.0 / 0.0 : Float)) <|> (do word "nan"; pure (0.0 / 0.0 : Float))
  return if mark == ['-'] then -x else x

/-- A number of `count` digits within bounds. -/
def field (count low high : Nat) : Reader Nat := do
  let digits ← (List.replicate count ()).mapM fun _ => one Char.isDigit
  let n := Number.digitsValue 0 digits
  if low ≤ n ∧ n ≤ high then pure n else failure

def daysIn (year month : Nat) : Nat :=
  if month = 2 then
    (if year % 4 = 0 ∧ (year % 100 ≠ 0 ∨ year % 400 = 0) then 29 else 28)
  else if month ∈ [4, 6, 9, 11] then 30 else 31

def date : Reader Unit := do
  let year ← field 4 0 9999
  char '-'
  let month ← field 2 1 12
  char '-'
  let _ ← field 2 1 (daysIn year month)

def timeOfDay : Reader Unit := do
  let _ ← field 2 0 23
  char ':'
  let _ ← field 2 0 59
  char ':'
  let _ ← field 2 0 60
  let _ ← maybe (do char '.'; span1 Char.isDigit)

def offset : Reader Unit := do
  let c ← one fun c => c == 'Z' || c == 'z' || c == '+' || c == '-'
  if c == '+' || c == '-' then
    let _ ← field 2 0 23
    char ':'
    let _ ← field 2 0 59

def moment : Reader Unit :=
  (do
    date
    let _ ← maybe do
      let _ ← one fun c => c == 'T' || c == 't' || c == ' '
      timeOfDay
      maybe offset) <|> timeOfDay

/-! ## Keys -/

def isKeyChar (c : Char) : Bool := c.isAlphanum || c == '-' || c == '_'

def keyPart (times : Nat) : Reader String := do
  gap
  let part ← quoted times <|> literal <|> String.ofList <$> span1 isKeyChar
  gap
  return part

def keyParts (times : Nat) : Reader (List String) := do
  let parts ← separated (keyPart times) (char '.') times
  if parts.length < levels then pure parts else failure

/-- A key before its value: the names before the last, and the last. -/
def key (times : Nat) : Reader (List String × String) := do
  let parts ← keyParts times
  let name ← StateT.lift parts.getLast?
  char '='
  gap
  return (parts.dropLast, name)

/-! ## Values -/

/-- A value that holds no others. -/
def scalar (times : Nat) : Reader Value :=
  (.text <$> text times) <|>
  (do word "true"; return .bool true) <|>
  (do word "false"; return .bool false) <|>
  (do moment; return .moment) <|>
  (.float <$> float times) <|>
  (.float <$> specialFloat) <|>
  (.int <$> based "0x" 16 times) <|>
  (.int <$> based "0o" 8 times) <|>
  (.int <$> based "0b" 2 times) <|>
  (.int <$> decimal times)

/-- A value with fewer than `level` levels of lists and braces. -/
def value (times : Nat) : (level : Nat) → Reader Value
  | 0 => failure
  | level + 1 => do
    match ← peek with
    | some '[' =>
      if level = 0 then failure
      char '['
      spacing times
      let item : Reader Value := do
        let item ← value times level
        spacing times
        return item
      let items ← maybe (separated item (do char ','; spacing times) times)
      if items.isSome then
        let _ ← maybe (do char ','; spacing times)
      char ']'
      return .list (items.getD [])
    | some '\x7b' =>
      if level = 0 then failure
      char '\x7b'
      let entry : Reader (List String × String × Value) := do
        let (path, name) ← key times
        let v ← value times level
        gap
        return (path, name, v)
      let entries ← maybe (separated entry (char ',') times)
      gap
      char '\x7d'
      let fields ← StateT.lift (Fields.ofEntries (entries.getD []))
      return .table .braced fields
    | _ => scalar times

/-! ## Documents -/

def listHeader (times : Nat) : Reader Statement := do
  word "[["
  let path ← keyParts times
  word "]]"
  return .listHeader path

def header (times : Nat) : Reader Statement := do
  char '['
  let path ← keyParts times
  char ']'
  return .header path

def entry (times : Nat) : Reader Statement := do
  let (path, name) ← key times
  return .entry path name (← value times levels)

/-- One line, which may say nothing. -/
def line (times : Nat) : Reader (Option Statement) := do
  gap
  match ← peek with
  | some '#' => do comment; newline <|> atEnd; return none
  | some '\n' | some '\r' => do newline; return none
  | some '[' => do
    let statement ← listHeader times <|> header times
    lineEnd
    return some statement
  | _ => do
    let statement ← entry times
    lineEnd
    return some statement

def document (times : Nat) : Reader (List Statement) := do
  let _ ← maybe (char '\ufeff')
  let lines ← many (line times) times
  gap
  atEnd
  return lines.filterMap id

end Reader

/-- The table of a document. No form repeats more often than the text is long. -/
def read (source : String) : Option Fields := do
  let (statements, _) ← Reader.document (source.length + 1) source.toList
  Fields.ofStatements statements

end Patchbay.Toml
