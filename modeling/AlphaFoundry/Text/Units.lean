/-
# AlphaFoundry.Text.Units -- text measured in 16-bit units

Widths and hashes count 16-bit units: a character above U+FFFF takes two.  `isInfixOf` is plain
substring search.
-/

namespace AlphaFoundry.Text

set_option autoImplicit false

/-- The 16-bit units of one character. -/
def unitsOf (c : Char) : List Nat :=
  if c.toNat < 0x10000 then [c.toNat]
  else [0xD800 + (c.toNat - 0x10000) / 0x400, 0xDC00 + (c.toNat - 0x10000) % 0x400]

def units (cs : List Char) : List Nat :=
  cs.flatMap unitsOf

def isHighHalf (n : Nat) : Bool :=
  0xD800 ≤ n && n < 0xDC00

def isLowHalf (n : Nat) : Bool :=
  0xDC00 ≤ n && n < 0xE000

/-- The character of a pair of units. -/
def ofHalves (high low : Nat) : Char :=
  Char.ofNat (0x10000 + (high - 0xD800) * 0x400 + (low - 0xDC00))

/-- The characters of code points, where a pair of units may stand for one.  Half a pair gives the
replacement character. -/
def ofCodes : List Nat → List Char
  | high :: low :: rest =>
    if isHighHalf high && isLowHalf low then ofHalves high low :: ofCodes rest
    else ofCode high :: ofCodes (low :: rest)
  | [code] => [ofCode code]
  | [] => []
where
  ofCode (n : Nat) : Char :=
    if isHighHalf n || isLowHalf n then '\uFFFD' else Char.ofNat n

/-- The length of a text in 16-bit units. -/
def width (s : String) : Nat :=
  (units s.toList).length

/-- One text occurs in another. -/
def isInfixOf (part : List Char) : List Char → Bool
  | [] => part.isEmpty
  | c :: cs => part.isPrefixOf (c :: cs) || isInfixOf part cs

/-- A text repeated a number of times. -/
def times (n : Nat) (s : String) : String :=
  String.join (List.replicate n s)

/-- Blanks on the right up to a width. -/
def padRight (n : Nat) (s : String) : String :=
  s ++ String.ofList (List.replicate (n - width s) ' ')

/-- Zeros on the left up to a number of characters. -/
def padZeros (n : Nat) (s : String) : String :=
  String.ofList (List.replicate (n - s.length) '0') ++ s

/-- ASCII letters in lower case; other characters stay. -/
def lower (cs : List Char) : List Char :=
  cs.map Char.toLower

end AlphaFoundry.Text
