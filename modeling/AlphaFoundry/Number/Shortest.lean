/-
# AlphaFoundry.Number.Shortest -- the fewest digits that read back

A double stands for all reals that round to it.  `Binary.readsBack` decides, in exact arithmetic,
whether a decimal is one of them.  `shortest` tries decimals of one digit, then of two, and so on;
on the grid of each length only the two neighbours of the value can be nearest to it.
-/
import AlphaFoundry.Number.Binary

namespace AlphaFoundry.Number

set_option autoImplicit false

/-- The decimal `digits * 10 ^ exponent`. -/
structure Decimal where
  digits : Nat
  exponent : Int
deriving Repr, DecidableEq

/-- Compare `a * 10 ^ i` with `n * 2 ^ j`. -/
def compareScaled (a : Nat) (i : Int) (n : Nat) (j : Int) : Ordering :=
  compare (a * Nat.pow 10 i.toNat * Nat.pow 2 (-j).toNat)
    (n * Nat.pow 2 j.toNat * Nat.pow 10 (-i).toNat)

/-- The decimal lies among the reals that round to the double's absolute value: at least halfway to
the neighbour below and at most halfway to the one above, the ends included for an even mantissa. -/
def Binary.readsBack (b : Binary) (d : Decimal) : Bool :=
  let low := if b.narrowBelow then 4 * b.mantissa - 1 else 4 * b.mantissa - 2
  let high := 4 * b.mantissa + 2
  let closed := b.mantissa % 2 == 0
  let below := compareScaled d.digits d.exponent low (b.exponent - 2)
  let above := compareScaled d.digits d.exponent high (b.exponent - 2)
  (below == .gt || (closed && below == .eq)) && (above == .lt || (closed && above == .eq))

/-- The least `k` such that the absolute value is below `10 ^ k`. -/
def Binary.magnitude (b : Binary) : Int :=
  let bits : Int := b.mantissa.log2 + b.exponent
  let guess : Int := bits * 30103 / 100000
  let candidates := [guess - 1, guess, guess + 1, guess + 2]
  (candidates.find? fun k => compareScaled 1 k b.mantissa b.exponent == .gt).getD (guess + 3)

/-- The best decimal on the grid of `10 ^ grid`, if one of the value's two neighbours reads back.
Of two that do the nearer is taken, of two equally near ones the even. -/
def Binary.onGrid? (b : Binary) (grid : Int) : Option Decimal :=
  let num := b.mantissa * Nat.pow 2 b.exponent.toNat * Nat.pow 10 (-grid).toNat
  let den := Nat.pow 2 (-b.exponent).toNat * Nat.pow 10 grid.toNat
  let below := num / den
  let lower : Decimal := ⟨below, grid⟩
  let upper : Decimal := ⟨below + 1, grid⟩
  match b.readsBack lower, b.readsBack upper with
  | true, false => some lower
  | false, true => some upper
  | false, false => none
  | true, true =>
    match compare (2 * num) ((2 * below + 1) * den) with
    | .lt => some lower
    | .gt => some upper
    | .eq => some (if below % 2 == 0 then lower else upper)

/-- Move trailing zeros of the digits into the exponent. -/
def Decimal.strip : Nat → Decimal → Decimal
  | 0, d => d
  | fuel + 1, d =>
    if d.digits != 0 && d.digits % 10 == 0 then strip fuel ⟨d.digits / 10, d.exponent + 1⟩ else d

/-- The shortest decimal that reads back as the double's absolute value, which is not zero. -/
def Binary.shortest (b : Binary) : Decimal :=
  let scale := b.magnitude
  let found := (List.range 17).findSome? fun n => b.onGrid? (scale - (n + 1 : Nat))
  let exact : Decimal :=
    if b.exponent < 0 then ⟨b.mantissa * Nat.pow 5 (-b.exponent).toNat, b.exponent⟩
    else ⟨b.mantissa * Nat.pow 2 b.exponent.toNat, 0⟩
  let d := found.getD exact
  d.strip (Nat.log2 d.digits + 1)

end AlphaFoundry.Number
