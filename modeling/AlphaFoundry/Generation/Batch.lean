/-
# AlphaFoundry.Generation.Batch -- planning a batch and yielding its candidates

`plan` checks a request and finds the skeletons that can be built, by seeded dry runs on a stream of
their own.  `Batch.yield` then builds one candidate after the other; the same plan always yields the
same candidates.
-/
import AlphaFoundry.Generation.Build
import AlphaFoundry.Log
import AlphaFoundry.Optimization.Score
import AlphaFoundry.Validation.Validator

namespace AlphaFoundry

set_option autoImplicit false

namespace Generation

/-- What a caller may ask for besides tier and count. -/
structure Options where
  seed : Float := 0
  /-- The group field that formulas of the optimize tier are neutralized against. -/
  neutralization : String := "industry"
  maxFieldRepeats : Float := defaultFieldCap
  literalRange : LiteralRange := {}

inductive Fault where
  | unknownTier (given : String)
  | badCount (given : Float)
  | badCap (given : Float)
  | badLiteralRange (range : LiteralRange)
  | badSeed (given : Float)
  | missingWrappers
  | noGroup
  | notAGroup (group operator : String)
  | noSkeleton (tier : Tier)

def Fault.message : Fault → String
  | unknownTier given =>
    s!"Unknown generation tier \"{given}\" (expected basic, creative or optimize)"
  | badCount given => s!"Count must be an integer >= 1, got {Number.text given}"
  | badCap given => s!"maxFieldRepeats must be an integer >= 1, got {Number.text given}"
  | badLiteralRange range =>
    "literalRange must satisfy 0 < min <= max < 1, got "
      ++ s!"{Number.text range.min}..{Number.text range.max}"
  | badSeed given => s!"Seed must be an integer, got {Number.text given}"
  | missingWrappers =>
    "Optimize tier needs a neutralize and a normalize operator in the catalog"
  | noGroup => "Optimize tier requires a neutralization group, got \"none\""
  | notAGroup group operator =>
    s!"Neutralization \"{group}\" is not a group field accepted by {operator}"
  | noSkeleton tier => s!"No {tier.name} skeleton can be built from this catalog"

/-- What the optimize tier puts around a formula. -/
structure Wrapping where
  neutralize : Operator
  normalize : Operator
  group : String

def Wrapping.wrap (w : Wrapping) (inner : Expr) : Expr :=
  .apply w.normalize.id [.apply w.neutralize.id [inner, .field w.group] none] none

end Generation

/-- A planned batch. -/
structure Batch where
  catalog : Catalog
  tier : Tier
  count : Nat
  seed : Float
  cap : Nat
  literalRange : LiteralRange
  /-- The domains that the formula below the wrapping may produce. -/
  signal : List String
  skeletons : List Skeleton
  wrapping : Option Generation.Wrapping

namespace Generation

/-! ## Feasibility -/

/-- Dry runs for each skeleton. -/
def maxProbes : Nat := 8

/-- Turns that nobody takes. -/
def noTurns : Rotation Rat :=
  { ids := [], weight := fun _ => 1 }

/-- Try to build a skeleton, each time with a fresh picker on the same stream. -/
def probe (c : Catalog) (cap : Nat) (range : LiteralRange) (signal : List String) (s : Skeleton) :
    Nat → Rng → Except Build.Fault Bool × Rng
  | 0, r => (.ok false, r)
  | n + 1, r =>
    let sub := Build.subFormula c range (.weighted Skeleton.basics)
    let bench : Build.Bench := ⟨r, { catalog := c, cap }, noTurns, noTurns⟩
    match Build.attempt (Build.skeleton c range sub s signal) bench with
    | .ok (some _) b => (.ok true, b.rng)
    | .ok none b => probe c cap range signal s n b.rng
    | .error fault b => (.error fault, b.rng)

/-- The skeletons that a dry run manages to build. -/
def feasible (c : Catalog) (cap : Nat) (range : LiteralRange) (signal : List String) :
    List Skeleton → Rng → Logged Build.Fault (List Skeleton)
  | [], _ => return []
  | s :: rest, r =>
    match probe c cap range signal s maxProbes r with
    | (.error fault, _) => Logged.fail fault
    | (.ok true, r) => return s :: (← feasible c cap range signal rest r)
    | (.ok false, r) => do
      Logged.note .debug s!"Skeleton {s.id} cannot be built from this catalog"
      feasible c cap range signal rest r

/-- Dry runs leave the stream of the batch alone. -/
def probeStream (seed : Float) : Rng :=
  .ofInt (Number.word32 seed ^^^ 0x5bd1e995).toInt32.toInt

/-! ## Planning -/

/-- A whole number from 1 on. -/
def positive? (x : Float) : Option Nat :=
  match Number.toInt? x with
  | some (.ofNat (n + 1)) => some (n + 1)
  | _ => none

def LiteralRange.isValid (range : LiteralRange) : Bool :=
  range.min > 0 && range.min <= range.max && range.max < 1

/-- The domains that formulas are built for: those that the wrapping accepts, else all. -/
def signal (c : Catalog) : List String :=
  match c.operatorForRole .neutralize, c.operatorForRole .normalize with
  | some op, _ => op.slot 0
  | none, some op => op.slot 0
  | none, none => c.domains

def groupFor (c : Catalog) (group : String) (neutralize : Operator) : Except Fault String :=
  if group == "none" then .error .noGroup
  else
    match c.field? group with
    | some f => if (neutralize.slot 1).contains f.domain then .ok f.id else refused
    | none => refused
where
  refused : Except Fault String := .error (.notAGroup group neutralize.id)

def wrappingFor (c : Catalog) (tier : Tier) (group : String) : Except Fault (Option Wrapping) :=
  match tier with
  | .optimize =>
    match c.operatorForRole .neutralize, c.operatorForRole .normalize with
    | some neutralize, some normalize =>
      (groupFor c group neutralize).map fun group => some ⟨neutralize, normalize, group⟩
    | _, _ => .error .missingWrappers
  | _ => .ok none

def pool : Tier → List Skeleton
  | .basic => Skeleton.basics
  | _ => Skeleton.creatives

/-- A request whose numbers are in order, without its skeletons. -/
def check (c : Catalog) (tier : String) (count : Float) (o : Options) : Except Fault Batch := do
  let some tier := Tier.ofName? tier | throw (.unknownTier tier)
  let some n := positive? count | throw (.badCount count)
  let some cap := positive? o.maxFieldRepeats | throw (.badCap o.maxFieldRepeats)
  unless LiteralRange.isValid o.literalRange do throw (.badLiteralRange o.literalRange)
  unless Number.isWhole o.seed do throw (.badSeed o.seed)
  let wrapping ← wrappingFor c tier o.neutralization
  return ⟨c, tier, n, o.seed, cap, o.literalRange, signal c, [], wrapping⟩

/-- A request is refused, or a dry run failed for a reason that no other skeleton mends. -/
inductive PlanFault where
  | request (fault : Fault)
  | build (fault : Build.Fault)

/-- Plan a batch, before any candidate exists. -/
def plan (c : Catalog) (tier : String) (count : Float) (o : Options) : Logged PlanFault Batch := do
  let batch ← (Logged.ofExcept (check c tier count o)).mapError .request
  let skeletons ← (feasible c batch.cap batch.literalRange batch.signal (pool batch.tier)
    (probeStream batch.seed)).mapError .build
  if skeletons.isEmpty then Logged.fail (.request (.noSkeleton batch.tier))
  else
    Logged.note .info
      s!"Generating {batch.count} {batch.tier.name} alpha(s) with seed {Number.text batch.seed}"
    return { batch with skeletons }

end Generation

namespace Batch

open Generation

variable (p : Batch)

/-- The bench at the start of the batch. -/
def bench : Build.Bench where
  rng := .seeded p.seed
  fields := { catalog := p.catalog, cap := p.cap }
  top := { ids := p.skeletons.map Skeleton.id, weight := fun id => Skeleton.weightOf id }
  sub :=
    { ids := Skeleton.basics.map Skeleton.id, weight := fun id => Skeleton.weightOf id,
      strict := false }

def topChooser : Build.Chooser :=
  .rotating p.skeletons Build.Bench.top fun top b => { b with top }

def subChooser : Build.Chooser :=
  .rotating Skeleton.basics Build.Bench.sub fun sub b => { b with sub }

/-- Build the formula of one candidate, below its wrapping, with a fresh picker. -/
def buildInner : Build (Skeleton × Expr) := do
  modify fun b => { b with fields := { catalog := p.catalog, cap := p.cap } }
  let sub := Build.subFormula p.catalog p.literalRange subChooser
  p.topChooser.build p.skeletons
    (fun s => Build.skeleton p.catalog p.literalRange sub s p.signal) p.signal

/-- The candidate of a formula, by its number in the batch. -/
def candidate (number : Nat) (skeletonId : String) (inner : Expr) : Candidate :=
  let root := match p.wrapping with
    | some w => w.wrap inner
    | none => inner
  { id := s!"{p.tier.name}-{Number.inBase36 p.seed}-{number}"
    tier := p.tier
    skeletonId
    root
    neutralization := (p.wrapping.map Wrapping.group).getD "none"
    normalization := (p.wrapping.map fun w => w.normalize.id).getD "none"
    score := (Score.total p.catalog {} root).toFloat
    status := .pending }

/-- The candidates that come out, and the fault that ended them early, if one did. -/
structure Yield where
  candidates : List Candidate
  fault : Option Build.Fault

/-- The next `n` candidates, numbered from `number` on. -/
def yieldFrom : (n : Nat) → (number : Nat) → Build.Bench → Yield
  | 0, _, _ => ⟨[], none⟩
  | n + 1, number, b =>
    match p.buildInner b with
    | .error fault _ => ⟨[], some fault⟩
    | .ok (s, inner) b =>
      let rest := yieldFrom n (number + 1) b
      ⟨p.candidate number s.id inner :: rest.candidates, rest.fault⟩

def yield : Yield :=
  p.yieldFrom p.count 1 p.bench

/-- All candidates, noting each. -/
def toList : Logged Build.Fault (List Candidate) :=
  let out := p.yield
  let notes := out.candidates.map fun k =>
    ({ level := .debug, message := s!"Generated {k.id} from skeleton {k.skeletonId}" } : Log.Note)
  match out.fault with
  | none => ⟨notes, .ok out.candidates⟩
  | some fault => ⟨notes, .error fault⟩

end Batch

end AlphaFoundry
