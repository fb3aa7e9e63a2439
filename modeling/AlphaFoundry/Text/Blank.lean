/-
# AlphaFoundry.Text.Blank -- blank characters, line ends and word characters

`isBlank` holds of the space separators of Unicode 15, the ASCII control spaces, the two line
separators and the byte-order mark.
-/

namespace AlphaFoundry.Text

set_option autoImplicit false

/-- Closed ranges of code points, ascending and apart. -/
def blankRanges : List (Nat × Nat) :=
  [(0x09, 0x0D), (0x20, 0x20), (0xA0, 0xA0), (0x1680, 0x1680), (0x2000, 0x200A),
   (0x2028, 0x2029), (0x202F, 0x202F), (0x205F, 0x205F), (0x3000, 0x3000), (0xFEFF, 0xFEFF)]

def isBlank (c : Char) : Bool :=
  blankRanges.any fun r => r.1 ≤ c.toNat && c.toNat ≤ r.2

/-- A character that ends a line: line feed, carriage return, and the line and paragraph
separators. -/
def isLineEnd (c : Char) : Bool :=
  c.toNat == 0x0A || c.toNat == 0x0D || c.toNat == 0x2028 || c.toNat == 0x2029

/-- An ASCII letter, an ASCII digit or `_`. -/
def isWord (c : Char) : Bool :=
  c.isAlphanum || c == '_'

/-- The text without the blanks at its ends. -/
def trim (cs : List Char) : List Char :=
  ((cs.dropWhile isBlank).reverse.dropWhile isBlank).reverse

end AlphaFoundry.Text
