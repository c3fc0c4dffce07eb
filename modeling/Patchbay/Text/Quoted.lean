import Patchbay.Text.Shown
/-!
# Text quoted for inspection

A text between double quotes in which every character that cannot be shown is spelled out.
-/

namespace Patchbay.Text

/-- A natural in lower-case hexadecimal, without leading zeros. -/
def hexText (n : Nat) : String := String.ofList (Nat.toDigits 16 n)

/-- One character inside the quotes. -/
def inspectedChar (c : Char) : String :=
  match c with
  | '\x00' => "\\0"
  | '\t' => "\\t"
  | '\n' => "\\n"
  | '\r' => "\\r"
  | '"' => "\\\""
  | '\\' => "\\\\"
  | c => if isShown c then String.singleton c else "\\u\x7b" ++ hexText c.toNat ++ "\x7d"

def inspected (text : String) : String :=
  "\"" ++ String.join (text.toList.map inspectedChar) ++ "\""

end Patchbay.Text
