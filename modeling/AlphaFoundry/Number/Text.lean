/-
# AlphaFoundry.Number.Text -- how numbers are written

`text` writes a double with the fewest digits that identify it: positionally from `10 ^ -6` up to
below `10 ^ 21`, otherwise with a signed exponent.  `fixed` writes a given number of places, and
`roundPlaces` is the double that such a text reads back as.  `inBase36` writes whole numbers with
the digits `0`-`9` and `a`-`z`.
-/
import AlphaFoundry.Number.Shortest

namespace AlphaFoundry.Number

set_option autoImplicit false

def zeros (n : Nat) : String :=
  String.ofList (List.replicate n '0')

/-- Lay out `0.digits * 10 ^ point`. -/
def layout (digits : String) (point : Int) : String :=
  let n := digits.length
  if (n : Int) ≤ point && point ≤ 21 then
    digits ++ zeros (point.toNat - n)
  else if 0 < point && point ≤ 21 then
    (digits.take point.toNat).toString ++ "." ++ (digits.drop point.toNat).toString
  else if -6 < point && point ≤ 0 then
    "0." ++ zeros (-point).toNat ++ digits
  else
    let e := point - 1
    let mark := if e < 0 then "e-" else "e+"
    let head := (digits.take 1).toString
    let tail := (digits.drop 1).toString
    let body := if n == 1 then head else head ++ "." ++ tail
    body ++ mark ++ toString e.natAbs

/-- The shortest text of a double.  Both zeros are written `0`. -/
def text (x : Float) : String :=
  match Binary.ofFloat? x with
  | none => if x.isNaN then "NaN" else if x > 0 then "Infinity" else "-Infinity"
  | some b =>
    if b.mantissa == 0 then "0"
    else
      let d := b.shortest
      let digits := toString d.digits
      let body := layout digits (d.exponent + digits.length)
      if b.negative then "-" ++ body else body

/-- From here on numbers with fixed places are written as by `text`. -/
def fixedLimit : Float := 1e21

/-- The absolute value in units of `10 ^ -places`, to the nearest unit, halves away from zero. -/
def Binary.units (b : Binary) (places : Nat) : Nat :=
  let num := b.mantissa * Nat.pow 2 b.exponent.toNat * Nat.pow 10 places
  (2 * num + b.denominator) / (2 * b.denominator)

/-- The text with exactly `places` digits after the point. -/
def fixed (places : Nat) (x : Float) : String :=
  match Binary.ofFloat? x with
  | none => text x
  | some b =>
    if x.abs >= fixedLimit then text x
    else
      let digits := toString (b.units places)
      let padded := zeros (places + 1 - digits.length) ++ digits
      let cut := padded.length - places
      let body :=
        if places == 0 then padded
        else (padded.take cut).toString ++ "." ++ (padded.drop cut).toString
      if x < 0 then "-" ++ body else body

/-- The double nearest to a value rounded to `places` decimal places. -/
def roundPlaces (places : Nat) (x : Float) : Float :=
  match Binary.ofFloat? x with
  | none => x
  | some b =>
    if x.abs >= fixedLimit then x
    else
      let rounded := Float.ofScientific (b.units places) true places
      if x < 0 then -rounded else rounded

def digit36 (d : Nat) : Char :=
  if d < 10 then Char.ofNat (48 + d) else Char.ofNat (87 + d)

/-- From here on a quotient does not tell the digits of what was divided. -/
def exactLimit : Float := 9007199254740991

/-- The digits of a whole number in base 36, the last digit first.  Beside a quotient that is not
exact a digit is written `0`.  The fuel is any bound on the number of digits. -/
def digits36 : Nat → Float → List Char
  | 0, _ => []
  | fuel + 1, x =>
    let digit := digit36 (((toInt? x).getD 0) % 36).toNat
    if x < 36 then [digit]
    else
      let quotient := floor (x / 36)
      (if quotient >= exactLimit then '0' else digit) :: digits36 fuel quotient

/-- A whole number in base 36.  Far above `2 ^ 53` the last digits are zeros: a double has no more
to say about them. -/
def inBase36 (x : Float) : String :=
  let body := String.ofList (digits36 250 x.abs).reverse
  if x < 0 then "-" ++ body else body

end AlphaFoundry.Number
