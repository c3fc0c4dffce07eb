import Patchbay.Json.Value
/-!
# JSON text

Two forms of one value: on one line without blanks, and indented by two spaces. Both write numbers
in `Layout.json` and escape only what must be escaped. A number that is not finite has no JSON
form and is written as `null`.
-/

namespace Patchbay.Json

/-- The four hexadecimal digits of a control character's escape. -/
def controlEscape (n : Nat) : String :=
  let digits := Nat.toDigits 16 n
  "\\u" ++ String.ofList (List.replicate (4 - digits.length) '0' ++ digits)

def escapedChar (c : Char) : String :=
  match c with
  | '"' => "\\\""
  | '\\' => "\\\\"
  | '\x08' => "\\b"
  | '\x0c' => "\\f"
  | '\n' => "\\n"
  | '\r' => "\\r"
  | '\t' => "\\t"
  | c => if c.toNat < 0x20 then controlEscape c.toNat else String.singleton c

/-- A text between double quotes. -/
def quoted (s : String) : String :=
  "\"" ++ String.join (s.toList.map escapedChar) ++ "\""

def Number.render : Number → String
  | .int n => toString n
  | .float x => if x.isFinite then Number.Layout.json.render x else "null"

mutual

/-- The form without blanks. -/
def compact : Json → String
  | null => "null"
  | bool b => if b then "true" else "false"
  | number n => n.render
  | text s => quoted s
  | list items => "[" ++ String.intercalate "," (compactItems items) ++ "]"
  | record fields => "\x7b" ++ String.intercalate "," (compactFields fields) ++ "\x7d"

def compactItems : List Json → List String
  | [] => []
  | item :: rest => compact item :: compactItems rest

def compactFields : List (String × Json) → List String
  | [] => []
  | (name, value) :: rest => (quoted name ++ ":" ++ compact value) :: compactFields rest

end

/-- A line break and the indentation of a level. -/
def lineAt (level : Nat) : String := "\n" ++ String.ofList (List.replicate (2 * level) ' ')

/-- Entries on lines of their own between two brackets; nothing between the brackets when there
are none. -/
def indentedBlock (level : Nat) (opening closing : String) (entries : List String) : String :=
  if entries.isEmpty then opening ++ closing
  else
    opening ++ lineAt (level + 1) ++ String.intercalate ("," ++ lineAt (level + 1)) entries ++
      lineAt level ++ closing

mutual

def prettyAt (level : Nat) : Json → String
  | null => "null"
  | bool b => if b then "true" else "false"
  | number n => n.render
  | text s => quoted s
  | list items => indentedBlock level "[" "]" (prettyItems (level + 1) items)
  | record fields => indentedBlock level "\x7b" "\x7d" (prettyFields (level + 1) fields)

def prettyItems (level : Nat) : List Json → List String
  | [] => []
  | item :: rest => prettyAt level item :: prettyItems level rest

def prettyFields (level : Nat) : List (String × Json) → List String
  | [] => []
  | (name, value) :: rest =>
    (quoted name ++ ": " ++ prettyAt level value) :: prettyFields level rest

end

/-- The form indented by two spaces, without a final line break. -/
def pretty (value : Json) : String := prettyAt 0 value

end Patchbay.Json
