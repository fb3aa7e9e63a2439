/-
# AlphaFoundry.Rng.Scaled -- draws scaled into ranges and weights

A draw `d` stands for the share `d / 2 ^ 31`.  Ranges and weights are numbers of any `Scale`:
doubles where callers choose them freely, rationals where they are small whole numbers and the
arithmetic is exact.

`weighted` takes one draw `u` and subtracts the weights from `u * total` until it falls below zero.
In exact arithmetic it returns the one index `i` with `sum before i ≤ u * total < sum through i`.
-/
import AlphaFoundry.Rng

namespace AlphaFoundry

set_option autoImplicit false

/-- Numbers that draws are scaled into. -/
class Scale (α : Type) where
  ofNat : Nat → α
  /-- A draw as a share of 2 ^ 31. -/
  share : Nat → α
  add : α → α → α
  sub : α → α → α
  mul : α → α → α
  floor : α → α
  lesser : α → α → α
  greater : α → α → α
  lt : α → α → Bool
  le : α → α → Bool

instance : Scale Float where
  ofNat := Float.ofNat
  share := fun d => Float.ofNat d / 2147483648
  add := (· + ·)
  sub := (· - ·)
  mul := (· * ·)
  floor := Number.floor
  lesser := Number.lesser
  greater := Number.greater
  lt := fun x y => x < y
  le := fun x y => x <= y

instance : Scale Rat where
  ofNat := fun n => n
  share := fun d => (d : Rat) / 2147483648
  add := (· + ·)
  sub := (· - ·)
  mul := (· * ·)
  floor := fun x => x.floor
  lesser := fun x y => if x ≤ y then x else y
  greater := fun x y => if x ≤ y then y else x
  lt := fun x y => x < y
  le := fun x y => x ≤ y

namespace Rng

variable {α : Type} [Scale α]

open Scale

/-- A uniform number from `low` up to below `high`. -/
def uniform (low high : α) (r : Rng) : α × Rng :=
  let (draw, r) := r.next
  (add low (mul (share draw) (sub high low)), r)

/-- A uniform whole number from `low` to `high`. -/
def between (low high : α) (r : Rng) : α × Rng :=
  let (draw, r) := r.next
  (add low (floor (mul (share draw) (add (sub high low) (ofNat 1)))), r)

/-- The first index at which the running threshold falls below zero. -/
def settle (threshold : α) : List α → Option Nat
  | [] => none
  | w :: ws =>
    let left := sub threshold w
    if lt left (ofNat 0) then some 0 else (settle left ws).map (· + 1)

/-- An index with probability proportional to its weight; weights below zero count as zero.  If no
weight is positive the choice is uniform. -/
def weighted (weights : List α) (r : Rng) : Nat × Rng :=
  let weights := weights.map (greater (ofNat 0))
  let total := weights.foldl add (ofNat 0)
  if le total (ofNat 0) then r.index weights.length
  else
    let (draw, r) := r.next
    match settle (mul (share draw) total) weights with
    | some i => (i, r)
    | none => (weights.length - 1, r.next.2)

/-- A choice with probability proportional to the item's weight. -/
def pickWeighted? {β : Type} (items : List β) (weight : β → α) (r : Rng) : Option β × Rng :=
  let (i, r) := r.weighted (items.map weight)
  (items[i]?, r)

end Rng

end AlphaFoundry
