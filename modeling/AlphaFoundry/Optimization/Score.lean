/-
# AlphaFoundry.Optimization.Score -- how good a formula looks

The score rewards different kinds of operators and data sources (`diversity`), a moderate depth and
conventional look-back windows (`robustness`), and wrapping at the root (`bonus`).  The weighted sum
is clamped to [0, 1] and graded in steps of 1 / 10000.
-/
import AlphaFoundry.Expr.Visit

namespace AlphaFoundry

set_option autoImplicit false

/-- A total score in ten-thousandths, from 0 to 10000.  It is undefined when infinite weights cancel
out. -/
inductive Grade where
  | undefined
  | points (n : Fin 10001)
deriving Repr, DecidableEq

namespace Grade

def toFloat : Grade → Float
  | undefined => 0.0 / 0.0
  | points n => Float.ofNat n / 10000

/-- Strictly better.  Nothing is better or worse than an undefined grade. -/
def beats : Grade → Grade → Bool
  | points n, points m => m < n
  | _, _ => false

def ofPoints (n : Nat) : Grade :=
  points ⟨min n 10000, Nat.lt_succ_of_le (Nat.min_le_right n 10000)⟩

/-- The nearest grade to a sum of weighted terms, clamped to [0, 1]. -/
def ofSum (x : Float) : Grade :=
  match Number.Binary.ofFloat? (Number.lesser 1 (Number.greater 0 x) * 10000) with
  | some b => ofPoints b.nearest.toNat
  | none => undefined

end Grade

namespace Score

/-- Look-back lengths in trading days that windows are pulled toward. -/
def commonPeriods : List Float := [10, 20, 60, 120, 252]

def shortestPeriod : Float := 5

/-- The common period nearest to a window; of two equally near ones the shorter. -/
def nearestPeriod (window : Float) : Float :=
  commonPeriods.foldl
    (fun best period => if (period - window).abs < (best - window).abs then period else best)
    shortestPeriod

structure Weights where
  diversity : Float := 0.45
  robustness : Float := 0.4
  normalizeBonus : Float := 0.075
  neutralizeBonus : Float := 0.075

variable (c : Catalog)

/-- The formula below the wrapping operators at its root. -/
def inner : Expr → Expr
  | .apply operator (child :: rest) window =>
    if (c.roleOf operator).isSome then inner child else .apply operator (child :: rest) window
  | e => e

/-! ## Diversity -/

/-- The category of an operator that does not wrap. -/
def operatorCategory (v : Visit) : Option OperatorCategory :=
  (v.label.operator?.bind c.operator?).bind fun op =>
    if op.role.isNone then some op.category else none

/-- An argument of a wrapping operator behind its first is no data source. -/
def isGroupArgument (v : Visit) : Bool :=
  (v.parent.bind c.roleOf).isSome && 0 < v.position

/-- The category of a field that is a data source. -/
def fieldCategory (v : Visit) : Option String :=
  match v.label with
  | .field id => if isGroupArgument c v then none else (c.field? id).map Field.category
  | _ => none

/-- Three different categories are a full share. -/
def share (n : Nat) : Float :=
  if 3 ≤ n then 1 else Float.ofNat n / 3

def diversity (e : Expr) : Float :=
  let operators := (e.visits.filterMap (operatorCategory c)).eraseDups.length
  let fields := (e.visits.filterMap (fieldCategory c)).eraseDups.length
  0.6 * share operators + 0.4 * share fields

/-! ## Robustness -/

/-- Depth 4 is ideal; each level away costs a quarter. -/
def depthTerm (depth : Nat) : Float :=
  Number.greater 0 (1 - Float.ofNat (((depth : Int) - 4).natAbs) / 4)

/-- A lag is conventional from 1 to 20 days, any other window near a common period. -/
def windowTerm (operator : String) (window : Float) : Float :=
  if ((c.operator? operator).map fun op => op.tags.contains "lag") == some true then
    if window >= 1 && window <= 20 then 1 else 0.5
  else
    let period := nearestPeriod window
    Number.greater 0 (1 - (window - period).abs / period)

def windowTerms (vs : List Visit) : List Float :=
  vs.filterMap fun v =>
    match v.label with
    | .apply operator (some window) => some (windowTerm c operator window)
    | _ => none

/-- The mean; one half if there is no window. -/
def meanTerm (terms : List Float) : Float :=
  if terms.isEmpty then 0.5 else terms.foldl (· + ·) 0 / Float.ofNat terms.length

def robustness (e : Expr) : Float :=
  0.7 * depthTerm (inner c e).depth + 0.3 * meanTerm (windowTerms c e.visits)

/-! ## Bonus and total -/

def bonus (w : Weights) (e : Expr) : Float :=
  match e.label.role? c with
  | some .neutralize => w.neutralizeBonus
  | some .normalize =>
    let below := e.children.head?.bind fun child => child.label.role? c
    w.normalizeBonus + (if below = some .neutralize then w.neutralizeBonus else 0)
  | none => 0

/-- To four places, halves upward. -/
def toPlaces (x : Float) : Float :=
  Number.round (x * 10000) / 10000

def total (w : Weights) (e : Expr) : Grade :=
  .ofSum (w.diversity * diversity c e + w.robustness * robustness c e + bonus c w e)

/-- The total with the terms it is made of, each to four places. -/
structure Breakdown where
  total : Grade
  diversity : Float
  robustness : Float
  bonus : Float

def breakdown (w : Weights) (e : Expr) : Breakdown :=
  ⟨total c w e, toPlaces (diversity c e), toPlaces (robustness c e), toPlaces (bonus c w e)⟩

end Score

end AlphaFoundry
