/-
# AlphaFoundry.Generation.Build -- building a skeleton on a catalog

A build draws operators, fields and windows from one stream.  It is unavailable where the catalog
has nothing for a slot; the draws taken until then stay taken.  `Chooser.build` tries the skeletons
that a chooser offers until one is built, in at most ten rounds.
-/
import AlphaFoundry.Generation.FieldPicker
import AlphaFoundry.Generation.Rotation
import AlphaFoundry.Generation.Skeleton

namespace AlphaFoundry

set_option autoImplicit false

namespace Build

/-- Why a slot has nothing to offer. -/
inductive Lack where
  | operator (q : Catalog.Query) (target : List String)
  | fedOperator (target : List String)
  /-- The slot of a weight does not accept literals. -/
  | literalSlot
  /-- An operator has more slots than a shape has arguments for. -/
  | missingArgument (index : Nat) (operatorId : String)
  | everything (target : List String)

def Lack.message : Lack → String
  | operator q target => s!"no operator for {q.kind} producing " ++ "|".intercalate target
  | fedOperator target => "no field-fed operator producing " ++ "|".intercalate target
  | literalSlot => "multiplier does not accept literals"
  | missingArgument index id => s!"missing argument {index} for {id}"
  | everything target => "nothing produces " ++ "|".intercalate target

inductive Fault where
  | unavailable (skeletonId : String) (lack : Lack)
  | noField (domains : List String)
  | emptyList

def Fault.message : Fault → String
  | unavailable id lack => s!"Skeleton \"{id}\" unavailable: " ++ lack.message
  | noField domains => "No field produces " ++ "|".intercalate domains
  | emptyList => "Cannot pick from an empty list"

/-- What builds change. -/
structure Bench where
  rng : Rng
  fields : FieldPicker
  /-- The turns of the tier's skeletons, and of the basic ones for sub-formulas. -/
  top : Rotation Rat
  sub : Rotation Rat

end Build

/-- A computation on the bench that may find something lacking. -/
abbrev Build (α : Type) := EStateM Build.Fault Build.Bench α

namespace Build

/-- Take a value from the stream. -/
def draw {α : Type} (f : Rng → α × Rng) : Build α := fun b =>
  let (a, rng) := f b.rng
  .ok a { b with rng }

def pick {α : Type} (items : List α) : Build α := do
  match ← draw (·.pick? items) with
  | some a => return a
  | none => throw .emptyList

def pickField (domains avoid : List String) : Build String := fun b =>
  match b.fields.pick? domains avoid b.rng with
  | (some (f, fields), rng) => .ok f.id { b with fields, rng }
  | (none, rng) => .error (.noField domains) { b with rng }

/-- Windows are drawn up to this length, if the range begins below it. -/
def maxInitialWindow : Nat := 60

/-- A window length from the lower part of a range. -/
def drawWindow {α : Type} [Scale α] (low high : α) (r : Rng) : α × Rng :=
  r.between low (Scale.greater low (Scale.lesser high (Scale.ofNat maxInitialWindow)))

/-- A window for an operator that takes one. -/
def windowFor (op : Operator) : Build (Option Float) := do
  match op.window.bind WindowRange.bounds? with
  | none => return none
  | some (low, high) =>
    let w ← draw (drawWindow (low : Rat) (high : Rat))
    return some (Float.ofInt w.floor)

/-- An operator that meets a query and produces one of the target domains. -/
def pickOperator (c : Catalog) (skeletonId : String) (q : Catalog.Query) (target : List String) :
    Build Operator :=
  match c.compatible { q with output := some target } with
  | [] => throw (.unavailable skeletonId (.operator q target))
  | ops => pick ops

/-- Fields for the slots of one operator, none of them twice if that can be. -/
def pickFields : List (List String) → (used : List String) → Build (List Expr)
  | [], _ => return []
  | slot :: slots, used => do
    let id ← pickField slot used
    return .field id :: (← pickFields slots (id :: used))

def basic (c : Catalog) (skeletonId : String) (q : Catalog.Query) (target : List String) :
    Build Expr := do
  let fields := (← get).fields
  match (c.compatible { q with output := some target }).filter
      fun op => op.inputs.all fields.canSupply with
  | [] => throw (.unavailable skeletonId (.fedOperator target))
  | ops =>
    let op ← pick ops
    let children ← pickFields op.inputs []
    return .apply op.id children (← windowFor op)

end Build

/-- The weights of a blend are drawn from this range. -/
structure LiteralRange where
  min : Float := 0.4
  max : Float := 0.6

namespace Build

/-- A literal for a slot that accepts literals. -/
def literal (skeletonId : String) (value : Float) (slot : List String) : Build Expr :=
  if slot.contains literalDomain then return .literal value
  else throw (.unavailable skeletonId .literalSlot)

/-- Fill a shape for one of the target domains.  `sub` builds sub-formulas, `weight` is the weight
of a blend. -/
def shape (c : Catalog) (skeletonId : String) (weight : Float) (sub : List String → Build Expr) :
    Shape → List String → Build Expr
  | .sub, target => sub target
  | .weight, target => literal skeletonId weight target
  | .complement, target => literal skeletonId (Number.roundPlaces 2 (1 - weight)) target
  | .wrap q inner, target => do
    let op ← pickOperator c skeletonId q target
    let child ← shape c skeletonId weight sub inner (op.slot 0)
    return .apply op.id [child] (← windowFor op)
  | .join q left right, target => do
    let op ← pickOperator c skeletonId q target
    let first ← shape c skeletonId weight sub left (op.slot 0)
    let second ← shape c skeletonId weight sub right (op.slot 1)
    return .apply op.id [first, second] (← windowFor op)

def blendWeight (range : LiteralRange) : Build Float := do
  return Number.roundPlaces 2 (← draw (·.uniform range.min range.max))

/-- Build a skeleton for one of the target domains. -/
def skeleton (c : Catalog) (range : LiteralRange) (sub : List String → Build Expr) (s : Skeleton)
    (target : List String) : Build Expr :=
  match s.plan with
  | .basic q => basic c s.id q target
  | .combined body => shape c s.id 0 sub body target
  | .blended body => do
    let weight ← blendWeight range
    shape c s.id weight sub body target

/-- The result of a build, or nothing if it was unavailable. -/
def attempt {α : Type} (x : Build α) : Build (Option α) := fun b =>
  match x b with
  | .ok a b => .ok (some a) b
  | .error (.unavailable ..) b => .ok none b
  | .error fault b => .error fault b

/-- Which skeleton is tried next, and what becomes of the one that was built. -/
structure Chooser where
  /-- A skeleton that is none of those that failed; nothing if there is none. -/
  offer : (failed : List String) → Build (Option Skeleton)
  commit : Skeleton → Build Unit

namespace Chooser

/-- By weight alone. -/
def weighted (skeletons : List Skeleton) : Chooser where
  offer failed := do
    let unfailed := skeletons.filter fun s => !failed.contains s.id
    if unfailed.isEmpty then return none
    else draw (·.pickWeighted? unfailed fun s => (s.weight : Rat))
  commit _ := return ()

/-- In the turns of a rotation that is on the bench. -/
def rotating (skeletons : List Skeleton) (rotation : Bench → Rotation Rat)
    (put : Rotation Rat → Bench → Bench) : Chooser where
  offer failed := do
    let turns := rotation (← get)
    let id ← draw (turns.pick? failed)
    return id.bind fun id => skeletons.find? fun s => s.id == id
  commit s := modify fun b => put ((rotation b).commit s.id) b

variable (chooser : Chooser)

/-- Try skeletons, each once, until one is built or none is offered. -/
def round (build : Skeleton → Build Expr) : Nat → List String → Build (Option (Skeleton × Expr))
  | 0, _ => return none
  | n + 1, failed => do
    match ← chooser.offer failed with
    | none => return none
    | some s =>
      match ← attempt (build s) with
      | some e =>
        chooser.commit s
        return some (s, e)
      | none => round build n (s.id :: failed)

def rounds (build : Skeleton → Build Expr) (size : Nat) : Nat → Build (Option (Skeleton × Expr))
  | 0 => return none
  | n + 1 => do
    match ← chooser.round build size [] with
    | some built => return some built
    | none => rounds build size n

/-- Full passes over the skeletons before giving up. -/
def maxRounds : Nat := 10

/-- The first skeleton offered that can be built, with what was built. -/
def build (skeletons : List Skeleton) (make : Skeleton → Build Expr) (target : List String) :
    Build (Skeleton × Expr) := do
  match ← chooser.rounds make skeletons.length maxRounds with
  | some built => return built
  | none =>
    throw (.unavailable ("|".intercalate (skeletons.map Skeleton.id)) (.everything target))

end Chooser

/-- Basic skeletons have no sub-formulas of their own. -/
def noSub (target : List String) : Build Expr :=
  throw (.unavailable "" (.everything target))

/-- A sub-formula from the basic skeletons. -/
def subFormula (c : Catalog) (range : LiteralRange) (chooser : Chooser) (target : List String) :
    Build Expr := do
  let (_, e) ← chooser.build Skeleton.basics (fun s => skeleton c range noSub s target) target
  return e

end Build

end AlphaFoundry
