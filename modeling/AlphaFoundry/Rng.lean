/-
# AlphaFoundry.Rng -- the seeded stream of draws

A linear congruential generator modulo 2 ^ 31.  Every random choice of the library takes the next
state of one stream, so a seed fixes a whole batch.
-/
import AlphaFoundry.Number.Binary

namespace AlphaFoundry

set_option autoImplicit false

structure Rng where
  state : Nat
deriving Repr, DecidableEq

namespace Rng

/-- The number of states, 2 ^ 31. -/
def modulus : Nat := 2147483648

/-- The state that follows a state.  The product is a signed word of 32 bits, so it wraps; the sum
is a whole number, of which the lower 31 bits are kept. -/
def step (s : Nat) : Nat :=
  let product := BitVec.ofNat 32 s * 1103515245#32
  (BitVec.ofInt 32 (product.toInt + 12345) &&& 0x7fffffff#32).toNat

/-- The stream of a whole seed: its absolute value modulo 2 ^ 31. -/
def ofInt (seed : Int) : Rng :=
  ⟨seed.natAbs % modulus⟩

/-- The stream of a seed, by its whole part.  NaN and the infinities seed like zero. -/
def seeded (seed : Float) : Rng :=
  match Number.Binary.ofFloat? seed with
  | some b => ofInt b.whole
  | none => ofInt 0

/-- One draw, a natural number below 2 ^ 31. -/
def next (r : Rng) : Nat × Rng :=
  let s := step r.state
  (s, ⟨s⟩)

/-- A uniform index below `n`. -/
def index (n : Nat) (r : Rng) : Nat × Rng :=
  let (draw, r) := r.next
  (draw * n / modulus, r)

/-- A uniform choice; nothing from an empty list, which takes a draw all the same. -/
def pick? {α : Type} (items : List α) (r : Rng) : Option α × Rng :=
  let (i, r) := r.index items.length
  (items[i]?, r)

end Rng

end AlphaFoundry
