/-
# AlphaFoundry.Number.Binary -- what a double holds, exactly

Every number of the library is a double.  A finite one is `± mantissa * 2 ^ exponent`, and this
module reads that form off its bits.  Questions about the value (is it a whole number, which whole
number is below it, is a count above it) are answered in `Nat` and `Int` on that form, so that they
can be reasoned about without a theory of rounding.
-/

namespace AlphaFoundry.Number

set_option autoImplicit false

/-- A finite double: `± mantissa * 2 ^ exponent`. -/
structure Binary where
  negative : Bool
  mantissa : Nat
  exponent : Int
  /-- The neighbour below is half as far away as the neighbour above. -/
  narrowBelow : Bool
deriving Repr, DecidableEq

namespace Binary

/-- The exact form of a finite double; nothing for NaN and the infinities. -/
def ofFloat? (x : Float) : Option Binary :=
  let bits : Nat := x.toBits.toNat
  let fraction : Nat := bits % Nat.pow 2 52
  let biased : Nat := bits / Nat.pow 2 52 % Nat.pow 2 11
  let negative := bits / Nat.pow 2 63 == 1
  if biased == 2047 then none
  else if biased == 0 then some ⟨negative, fraction, -1074, false⟩
  else some ⟨negative, Nat.pow 2 52 + fraction, (biased : Int) - 1075, fraction == 0 && biased > 1⟩

/-- The mantissa with its sign. -/
def signed (b : Binary) : Int :=
  if b.negative then -(b.mantissa : Int) else b.mantissa

/-- The value as `numerator / denominator`, not in lowest terms. -/
def numerator (b : Binary) : Int :=
  b.signed * Nat.pow 2 b.exponent.toNat

def denominator (b : Binary) : Nat :=
  Nat.pow 2 (-b.exponent).toNat

def isWhole (b : Binary) : Bool :=
  b.numerator % (b.denominator : Int) == 0

/-- The greatest whole number that is not above the value. -/
def floor (b : Binary) : Int :=
  b.numerator / (b.denominator : Int)

/-- The least whole number that is not below the value. -/
def ceil (b : Binary) : Int :=
  -(-b.numerator / (b.denominator : Int))

/-- The whole part: the digits after the point are dropped. -/
def whole (b : Binary) : Int :=
  b.numerator.tdiv (b.denominator : Int)

/-- The nearest whole number; of two equally near ones the upper. -/
def nearest (b : Binary) : Int :=
  (2 * b.numerator + b.denominator) / (2 * b.denominator : Int)

end Binary

/-- The whole number that a double is, if it is one. -/
def toInt? (x : Float) : Option Int :=
  (Binary.ofFloat? x).bind fun b => if b.isWhole then some b.floor else none

def isWhole (x : Float) : Bool :=
  (toInt? x).isSome

/-- The sign bit is set: a value below zero, or negative zero. -/
def signBit (x : Float) : Bool :=
  x.toBits.toNat / Nat.pow 2 63 == 1

/-- A whole number as a double, with the sign of zero given. -/
def ofWhole (negative : Bool) (n : Int) : Float :=
  if n == 0 && negative then -0.0 else Float.ofInt n

/-- Rounding down to a whole number.  NaN, the infinities and the sign of zero stay. -/
def floor (x : Float) : Float :=
  match Binary.ofFloat? x with
  | some b => ofWhole b.negative b.floor
  | none => x

/-- Rounding to the nearest whole number, halves upward. -/
def round (x : Float) : Float :=
  match Binary.ofFloat? x with
  | some b => ofWhole b.negative b.nearest
  | none => x

/-- The smaller of two doubles; NaN if either is NaN. -/
def lesser (x y : Float) : Float :=
  if x.isNaN || y.isNaN then 0.0 / 0.0
  else if x < y then x
  else if y < x then y
  else if signBit x then x else y

/-- The larger of two doubles; NaN if either is NaN. -/
def greater (x y : Float) : Float :=
  if x.isNaN || y.isNaN then 0.0 / 0.0
  else if x < y then y
  else if y < x then x
  else if signBit x then y else x

/-- A count is below a bound.  Nothing is below NaN. -/
def countBelow (n : Nat) (x : Float) : Bool :=
  match Binary.ofFloat? x with
  | some b => (n : Int) * b.denominator < b.numerator
  | none => x > 0

/-- A count is above a bound.  Nothing is above NaN. -/
def countAbove (n : Nat) (x : Float) : Bool :=
  match Binary.ofFloat? x with
  | some b => b.numerator < (n : Int) * b.denominator
  | none => x < 0

/-- A count is at most a bound. -/
def countAtMost (n : Nat) (x : Float) : Bool :=
  match Binary.ofFloat? x with
  | some b => (n : Int) * b.denominator ≤ b.numerator
  | none => x > 0

/-- A count is at least a bound. -/
def countAtLeast (n : Nat) (x : Float) : Bool :=
  match Binary.ofFloat? x with
  | some b => b.numerator ≤ (n : Int) * b.denominator
  | none => x < 0

/-- How many counts 0, 1, 2, … are below a bound.  No run reaches the number that stands for an
infinite bound. -/
def countsBelow (x : Float) : Nat :=
  match Binary.ofFloat? x with
  | some b => b.ceil.toNat
  | none => if x > 0 then Nat.pow 2 1024 else 0

/-- A count as a double that is counted up by one: it does not get beyond 2 ^ 53. -/
def counter (n : Nat) : Float :=
  Float.ofNat (Nat.min n 9007199254740992)

/-- The low 32 bits of the whole part, in two's complement.  NaN and the infinities have none. -/
def word32 (x : Float) : UInt32 :=
  match Binary.ofFloat? x with
  | some b => UInt32.ofNat (b.whole % 4294967296).toNat
  | none => 0

end AlphaFoundry.Number
