/-
# AlphaFoundry.Pipeline -- batches until enough candidates are accepted

An attempt generates as many candidates as are missing, improves them if asked to, and reviews them.
An accepted candidate whose written formula is kept already is dropped.  Attempts end when enough
candidates are kept or when there may be no more attempts.
-/
import AlphaFoundry.Expr.Render
import AlphaFoundry.Failure

namespace AlphaFoundry

set_option autoImplicit false

namespace Pipeline

/-- Attempts made unless a caller says otherwise. -/
def defaultAttempts : Float := 3

structure Request where
  tier : String
  count : Float
  optimize : Bool
  /-- Rounds for each candidate. -/
  iterations : Float
  maxAttempts : Float := defaultAttempts
  /-- Each attempt adds one to the seed. -/
  seed : Option Float := none
  /-- The seeds that are drawn, one for each attempt, for a request without a seed. -/
  drawn : (attempt : Nat) → Float := fun _ => 0
  neutralization : String := "industry"
  maxFieldRepeats : Float := defaultFieldCap

/-- What the attempts so far led to. -/
structure Progress where
  accepted : List Candidate := []
  rejected : List Candidate := []
  attempts : Nat := 0
  /-- The written formulas of the accepted candidates. -/
  written : List String := []

/-- What stays the same during a run. -/
structure Line where
  /-- Formulas are written by its templates. -/
  catalog : Catalog
  /-- Candidates are generated from it. -/
  source : Catalog
  validator : Validator
  /-- How candidates are improved, if they can be. -/
  optimizer : Option Optimizer
  request : Request

/-- The most candidates that are handed over in one list. -/
def maxBatch : Nat := 4294967295

namespace Line

variable (s : Line)

def isEnough (p : Progress) : Bool :=
  !Number.countBelow p.accepted.length s.request.count

/-- How many candidates an attempt asks for. -/
def missing (p : Progress) : Float :=
  s.request.count - Float.ofNat p.accepted.length

/-- The seed of an attempt. -/
def seedAt (attempt : Nat) : Float :=
  match s.request.seed with
  | some seed => seed + Number.counter attempt
  | none => s.request.drawn attempt

def options (p : Progress) : Generation.Options where
  seed := s.seedAt p.attempts
  neutralization := s.request.neutralization
  maxFieldRepeats := s.request.maxFieldRepeats

def generate (p : Progress) : Logged Failure (List Candidate) := do
  let batch ← (Generation.plan s.source s.request.tier (s.missing p) (s.options p)).mapError .ofPlan
  let candidates ← batch.toList.mapError .build
  if candidates.length ≤ maxBatch then return candidates
  else Logged.fail .tooMany

/-- The best candidate that a search finds; one that is not valid stays as it is. -/
def improve (a : Optimizer) (k : Candidate) : Logged Failure Candidate := do
  if (s.validator.validate k).accepted then
    let found ← (a.search k s.request.iterations).mapError .optimization
    return found.best
  else return k

def improveAll (ks : List Candidate) : Logged Failure (List Candidate) := do
  match s.request.optimize, s.optimizer with
  | true, some a =>
    Logged.note .info "Optimizing alpha expressions..."
    ks.mapM (s.improve a)
  | _, _ => return ks

def text (k : Candidate) : String :=
  k.root.render s.catalog

/-- Keep an accepted candidate unless its formula is kept already. -/
def keep (p : Progress) (k : Candidate) : Logged Failure Progress := do
  let text := s.text k
  if p.written.contains text then
    Logged.note .debug s!"Dropping duplicate {k.id}: {text}"
    return p
  else return { p with accepted := p.accepted ++ [k], written := text :: p.written }

def attempt (p : Progress) : Logged Failure Progress := do
  Logged.note .info (s!"Attempt {p.attempts + 1}/" ++ Number.text s.request.maxAttempts
    ++ ": generating " ++ Number.text (s.missing p) ++ s!" {s.request.tier} alpha(s)")
  let batch ← s.improveAll (← s.generate p)
  Logged.note .info "Validating alpha expressions..."
  let reviewed ← s.validator.reviewBatch batch
  let kept ← reviewed.accepted.foldlM s.keep { p with attempts := p.attempts + 1 }
  return { kept with rejected := kept.rejected ++ reviewed.rejected }

/-- At most `n` more attempts. -/
def attempts : Nat → Progress → Logged Failure Progress
  | 0, p => return p
  | n + 1, p => do
    if s.isEnough p then return p
    else attempts n (← s.attempt p)

def run : Logged Failure Progress := do
  if s.request.optimize && s.optimizer.isNone then Logged.fail .noOptimizer
  else
    let last ← s.attempts (Number.countsBelow s.request.maxAttempts) {}
    if s.isEnough last then return last
    else
      Logged.note .warn (s!"Only {last.accepted.length} of " ++ Number.text s.request.count
        ++ s!" alphas passed validation after {last.attempts} attempt(s)")
      return last

end Line

/-- A line whose parts all work on the catalog of the validator. -/
structure Setting where
  validator : Validator
  optimizer : Option Search.Settings
  request : Request

namespace Setting

variable (s : Setting)

def line : Line where
  catalog := s.validator.catalog
  source := s.validator.catalog
  validator := s.validator
  optimizer := s.optimizer.map fun settings => ⟨s.validator.catalog, s.validator, settings⟩
  request := s.request

def run : Logged Failure Progress :=
  s.line.run

end Setting

end Pipeline

end AlphaFoundry
