/-!
# Blanks

The white space that surrounds a number typed by hand: the characters with that property in
Unicode, which is more than `Char.isWhitespace` knows.
-/

namespace Patchbay.Text

/-- White space: the ASCII blanks from tab to carriage return, the space, and the spaces and line
ends beyond ASCII. -/
def isBlank (c : Char) : Bool :=
  let n := c.toNat
  (0x09 ≤ n && n ≤ 0x0d) || n == 0x20 || n == 0x85 || n == 0xa0 || n == 0x1680 ||
    (0x2000 ≤ n && n ≤ 0x200a) || n == 0x2028 || n == 0x2029 || n == 0x202f || n == 0x205f ||
    n == 0x3000

/-- The text without the blanks at its two ends. -/
def trimmed (text : String) : String :=
  String.ofList ((text.toList.dropWhile isBlank).reverse.dropWhile isBlank).reverse

end Patchbay.Text
