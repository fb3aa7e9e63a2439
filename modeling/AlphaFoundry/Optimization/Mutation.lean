/-
# AlphaFoundry.Optimization.Mutation -- small changes of a formula

Three kinds: another field of the same domain, another operator that fits the arguments and the
place, another window in the operator's range.  Wrapping operators, and their arguments behind the
first, are never changed.
-/
import AlphaFoundry.Rng
import AlphaFoundry.Optimization.Score

namespace AlphaFoundry

set_option autoImplicit false

inductive Mutation where
  | swapField
  | swapOperator
  | adjustWindow
deriving Repr, DecidableEq

namespace Mutation

def name : Mutation → String
  | swapField => "swap_field"
  | swapOperator => "swap_operator"
  | adjustWindow => "adjust_window"

def all : List Mutation := [swapField, swapOperator, adjustWindow]

variable (c : Catalog)

/-- A visited node may be changed. -/
def isOpen (v : Visit) : Bool :=
  (v.label.role? c).isNone && !Score.isGroupArgument c v

def openVisits (e : Expr) : List Visit :=
  e.visits.filter (isOpen c)

def clamp (x : Float) (range : WindowRange) : Float :=
  Number.lesser range.max (Number.greater range.min x)

/-! ## Fields -/

/-- Fields that can stand for a field: those of its domain except itself. -/
def fieldAlternatives (v : Visit) : List Field :=
  match v.label with
  | .field id =>
    match c.field? id with
    | some f => (c.fieldsByDomain [f.domain]).filter fun g => g.id != id
    | none => []
  | _ => []

def replaceField (e : Expr) (r : Rng) : Option Expr × Rng :=
  let options := (openVisits c e).filterMap fun v =>
    let alternatives := fieldAlternatives c v
    if alternatives.isEmpty then none else some (v.path, alternatives)
  if options.isEmpty then (none, r)
  else
    match r.pick? options with
    | (none, r) => (none, r)
    | (some (path, alternatives), r) =>
      match r.pick? alternatives with
      | (none, r) => (none, r)
      | (some f, r) => (some (e.replaceAt path (.field f.id)), r)

/-! ## Operators -/

/-- The slot of the node above that a node stands in. -/
def slotAbove (v : Visit) : Option (List String) :=
  match v.path.getLast?, v.parent.bind c.operator? with
  | some i, some op => op.inputs[i]?
  | _, _ => none

/-- Operators of the same arity that accept the arguments and whose output fits the slot above; at
the root, and where there is no slot, whose output stays the same. -/
def operatorAlternatives (v : Visit) : List Operator :=
  match v.label.operator?.bind c.operator?, v.children.mapM (Label.domain? c) with
  | some current, some domains =>
    (c.compatible { arity := some current.arity, accepts := some domains }).filter fun op =>
      op.id != current.id
        && match slotAbove c v with
          | some slot => slot.contains op.output
          | none => op.output == current.output
  | _, _ => []

def replaceOperator (e : Expr) (r : Rng) : Option Expr × Rng :=
  let options := (openVisits c e).filterMap fun v =>
    let alternatives := operatorAlternatives c v
    if alternatives.isEmpty then none else some (v.path, alternatives)
  if options.isEmpty then (none, r)
  else
    match r.pick? options with
    | (none, r) => (none, r)
    | (some (path, alternatives), r) =>
      match r.pick? alternatives, e.nodeAt? path with
      | (some op, r), some (.apply _ children window) =>
        let window := op.window.map fun range => clamp (window.getD range.min) range
        (some (e.replaceAt path (.apply op.id children window)), r)
      | (_, r), _ => (none, r)

/-! ## Windows -/

/-- The window of a node and the range that its operator allows. -/
def windowOf (v : Visit) : Option (Float × WindowRange) :=
  match v.label with
  | .apply operator (some window) =>
    ((c.operator? operator).bind Operator.window).map fun range => (window, range)
  | _ => none

/-- A draw in the lower half. -/
def flip (r : Rng) : Bool × Rng :=
  let (draw, r) := r.next
  (2 * draw < Rng.modulus, r)

/-- A quarter of the window down or up, at least one day. -/
def stepWindow (window : Float) (r : Rng) : Float × Rng :=
  let step := Number.greater 1 (Number.round (window * 0.25))
  let (down, r) := flip r
  (window + (if down then -step else step), r)

/-- The nearest common period or a step, evenly; a step if the window is a common period. -/
def moveWindow (window : Float) (r : Rng) : Float × Rng :=
  let period := Score.nearestPeriod window
  if period == window then stepWindow window r
  else
    match flip r with
    | (true, r) => (period, r)
    | (false, r) => stepWindow window r

def replaceWindow (e : Expr) (r : Rng) : Option Expr × Rng :=
  let options := (openVisits c e).filterMap fun v => (windowOf c v).map fun w => (v.path, w)
  if options.isEmpty then (none, r)
  else
    match r.pick? options with
    | (none, r) => (none, r)
    | (some (path, window, range), r) =>
      let (moved, r) := moveWindow window r
      let moved := clamp moved range
      if moved == window then (none, r)
      else
        match e.nodeAt? path with
        | some (.apply operator children _) =>
          (some (e.replaceAt path (.apply operator children (some moved))), r)
        | _ => (none, r)

/-! ## Any of them -/

/-- A changed copy, or nothing if there is nothing to change in this way. -/
def apply (m : Mutation) (e : Expr) (r : Rng) : Option Expr × Rng :=
  match m with
  | swapField => replaceField c e r
  | swapOperator => replaceOperator c e r
  | adjustWindow => replaceWindow c e r

/-- The mutations in a random order, up to the first that applies.  The fuel is their number. -/
def tryAll : Nat → List Mutation → Expr → Rng → Option (Mutation × Expr) × Rng
  | 0, _, _, r => (none, r)
  | fuel + 1, ms, e, r =>
    if ms.isEmpty then (none, r)
    else
      let (i, r) := r.index ms.length
      match ms[i]? with
      | none => (none, r)
      | some m =>
        match m.apply c e r with
        | (some e', r) => (some (m, e'), r)
        | (none, r) => tryAll fuel (ms.eraseIdx i) e r

def mutate (ms : List Mutation) (e : Expr) (r : Rng) : Option (Mutation × Expr) × Rng :=
  tryAll c ms.length ms e r

end Mutation

end AlphaFoundry
