/-
# AlphaFoundry.Number.Reading -- numbers from their texts

`decimal` is the double nearest to digits with an exponent; each format that holds numbers has its
own grammar around it.  `numeral?` is the grammar of numbers that a person types on a command line:
a decimal with an optional sign, fraction and exponent, `Infinity`, or whole numbers in base 16, 8
and 2; blanks around it do not count, and an empty text is zero.
-/
import AlphaFoundry.Number.Binary
import AlphaFoundry.Text.Blank

namespace AlphaFoundry.Number

set_option autoImplicit false

def digitValue (c : Char) : Nat :=
  c.toNat - 48

def natOfDigits (cs : List Char) : Nat :=
  cs.foldl (fun n c => 10 * n + digitValue c) 0

/-- The double nearest to `mantissa * 10 ^ exponent`. -/
def decimal (mantissa : Nat) (exponent : Int) : Float :=
  let size : Int := mantissa.log2 * 30103 / 100000 + exponent
  if mantissa == 0 || size < -400 then 0
  else if size > 400 then 1.0 / 0.0
  else Float.ofScientific mantissa (exponent < 0) exponent.natAbs

/-- Split off the leading decimal digits. -/
def spanDigits (cs : List Char) : List Char × List Char :=
  cs.span (·.isDigit)

/-- An exponent with its sign: at least one digit. -/
def exponentOf? : List Char → Option (Int × List Char)
  | '+' :: cs => (unsigned? cs).map fun (n, r) => ((n : Int), r)
  | '-' :: cs => (unsigned? cs).map fun (n, r) => (-(n : Int), r)
  | cs => (unsigned? cs).map fun (n, r) => ((n : Int), r)
where
  unsigned? (cs : List Char) : Option (Nat × List Char) :=
    match spanDigits cs with
    | ([], _) => none
    | (ds, r) => some (natOfDigits ds, r)

/-- The value of a whole part, a fraction and an exponent. -/
def assemble (whole fraction : List Char) (exponent : Int) : Float :=
  decimal (natOfDigits (whole ++ fraction)) (exponent - fraction.length)

/-- An optional exponent behind `e` or `E`, up to the end of the text. -/
def finish? (whole fraction : List Char) : List Char → Option Float
  | [] => some (assemble whole fraction 0)
  | c :: cs =>
    if c == 'e' || c == 'E' then
      match exponentOf? cs with
      | some (e, []) => some (assemble whole fraction e)
      | _ => none
    else none

/-- A decimal without a sign; digits are needed on one side of the point. -/
def unsignedDecimal? (cs : List Char) : Option Float :=
  let (whole, rest) := spanDigits cs
  match rest with
  | '.' :: more =>
    let (fraction, rest) := spanDigits more
    if whole.isEmpty && fraction.isEmpty then none else finish? whole fraction rest
  | _ => if whole.isEmpty then none else finish? whole [] rest

/-- A decimal or `Infinity`, without a sign. -/
def unsigned? (cs : List Char) : Option Float :=
  if cs == "Infinity".toList then some (1.0 / 0.0) else unsignedDecimal? cs

/-- The value of a digit in bases up to 16. -/
def digitIn? (base : Nat) (c : Char) : Option Nat :=
  let n := c.toNat
  let v :=
    if 48 ≤ n && n ≤ 57 then n - 48
    else if 97 ≤ n && n ≤ 102 then n - 87
    else if 65 ≤ n && n ≤ 70 then n - 55
    else base
  if v < base then some v else none

/-- A whole number in a base, at least one digit. -/
def inBase? (base : Nat) (cs : List Char) : Option Nat :=
  if cs.isEmpty then none
  else cs.foldlM (fun n c => (digitIn? base c).map (base * n + ·)) 0

/-- The number that a typed text stands for. -/
def numeral? (s : String) : Option Float :=
  match Text.trim s.toList with
  | [] => some 0
  | '0' :: 'x' :: cs | '0' :: 'X' :: cs => (inBase? 16 cs).map fun n => decimal n 0
  | '0' :: 'o' :: cs | '0' :: 'O' :: cs => (inBase? 8 cs).map fun n => decimal n 0
  | '0' :: 'b' :: cs | '0' :: 'B' :: cs => (inBase? 2 cs).map fun n => decimal n 0
  | '-' :: cs => (unsigned? cs).map (-·)
  | '+' :: cs => unsigned? cs
  | cs => unsigned? cs

end AlphaFoundry.Number
