/-
# AlphaFoundry.Optimization.Search -- climbing from a candidate to better ones

A round tries mutants of the best formula so far until one is valid.  That mutant becomes the best
one if its grade is strictly higher.  The search ends with its budget of rounds, or when it has
been patient for long enough.
-/
import AlphaFoundry.Optimization.Mutation
import AlphaFoundry.Validation.Validator

namespace AlphaFoundry

set_option autoImplicit false

namespace Search

structure Settings where
  /-- The greatest number of rounds. -/
  iterations : Float := 50
  /-- Rounds without improvement that end the search. -/
  patience : Float := 10
  /-- Mutants tried in a round. -/
  retries : Float := 5
  seed : Float := 0
  weights : Score.Weights := {}
  mutations : List Mutation := Mutation.all

inductive Fault where
  | badIterations (given : Float) (candidateId : String)
  | rejected (candidateId : String) (violations : List Violation)

namespace Fault

def candidateId : Fault → String
  | badIterations _ id => id
  | rejected id _ => id

def message : Fault → String
  | badIterations given _ =>
    s!"Iterations must be a non-negative integer, got {Number.text given}"
  | rejected id violations =>
    let reasons := violations.map fun v => v.ruleId.name ++ ": " ++ v.reason
    s!"Cannot optimize rejected candidate {id}: " ++ "; ".intercalate reasons

end Fault

inductive StopReason where
  | maxIterations
  | noImprovement
deriving Repr, DecidableEq

def StopReason.name : StopReason → String
  | maxIterations => "max_iterations"
  | noImprovement => "no_improvement"

structure Stats where
  mutantsGenerated : Nat := 0
  mutantsRejected : Nat := 0
  improvements : Nat := 0
  fieldsSwapped : Nat := 0
  operatorsSwapped : Nat := 0
  windowsAdjusted : Nat := 0
deriving Repr, DecidableEq

/-- One more mutant of a kind. -/
def Stats.count (s : Stats) : Mutation → Stats
  | .swapField =>
    { s with mutantsGenerated := s.mutantsGenerated + 1, fieldsSwapped := s.fieldsSwapped + 1 }
  | .swapOperator =>
    { s with
      mutantsGenerated := s.mutantsGenerated + 1, operatorsSwapped := s.operatorsSwapped + 1 }
  | .adjustWindow =>
    { s with mutantsGenerated := s.mutantsGenerated + 1, windowsAdjusted := s.windowsAdjusted + 1 }

/-- Where a search stands. -/
structure Climb where
  best : Expr
  grade : Grade
  rng : Rng
  stats : Stats
  /-- The best grade after each round, the latest first, ending with the starting grade. -/
  history : List Grade
  /-- Rounds since the last improvement. -/
  stale : Nat

/-- A mutant that became the best one. -/
structure Improvement where
  round : Nat
  mutation : Mutation
  before : Grade
  after : Grade

/-- What stays the same during a search. -/
structure Setting where
  catalog : Catalog
  validator : Validator
  tier : Tier
  weights : Score.Weights
  mutations : List Mutation
  retries : Nat
  patience : Float

namespace Setting

variable (s : Setting)

/-- Mutants until one is valid, at most as many as given.  The result says whether the last one was
an improvement, and by what mutation. -/
def tryMutants : Nat → Climb → Climb × Option Mutation
  | 0, k => (k, none)
  | n + 1, k =>
    match Mutation.mutate s.catalog s.mutations k.best k.rng with
    | (none, rng) => ({ k with rng }, none)
    | (some (m, mutant), rng) =>
      let k := { k with rng, stats := k.stats.count m }
      if (s.validator.validateTree mutant s.tier).accepted then
        let grade := Score.total s.catalog s.weights mutant
        if grade.beats k.grade then
          ({ k with
            best := mutant, grade,
            stats := { k.stats with improvements := k.stats.improvements + 1 } }, some m)
        else (k, none)
      else
        tryMutants n
          { k with stats := { k.stats with mutantsRejected := k.stats.mutantsRejected + 1 } }

/-- One round, with its entry in the history. -/
def round (k : Climb) : Climb × Option Mutation :=
  let (next, improved) := s.tryMutants s.retries k
  ({ next with
    history := next.grade :: next.history,
    stale := if improved.isSome then 0 else k.stale + 1 }, improved)

/-- At most `budget` rounds behind round `done`.  Gives the final state, the number of the last
round, why it was the last, and the improvements. -/
def rounds : (budget : Nat) → (done : Nat) → Climb → Climb × Nat × StopReason × List Improvement
  | 0, done, k => (k, done, .maxIterations, [])
  | budget + 1, done, k =>
    let (next, improved) := s.round k
    let here := improved.toList.map fun m => ⟨done + 1, m, k.grade, next.grade⟩
    if Number.countAtLeast next.stale s.patience then (next, done + 1, .noImprovement, here)
    else
      let (last, n, reason, later) := rounds budget (done + 1) next
      (last, n, reason, here ++ later)

end Setting

structure Result where
  best : Candidate
  initial : Grade
  iterations : Nat
  stopReason : StopReason
  stats : Stats
  /-- The best grade after each round, from the starting grade on. -/
  history : List Grade

/-- The seed of a candidate's own search: a hash of the id's 16-bit units (FNV-1a, 32 bits), mixed
with the base seed. -/
def seedFor (base : Float) (id : String) : UInt32 :=
  let hash := (Text.units id.toList).foldl
    (fun (h : UInt32) u => (h ^^^ UInt32.ofNat u) * 0x01000193) 0x811c9dc5
  hash ^^^ Number.word32 base

end Search

open Search

/-- Climbs on one catalog, by the rules of a validator. -/
structure Optimizer where
  /-- Mutants are drawn from it, and scores are taken on it. -/
  catalog : Catalog
  validator : Validator
  settings : Settings := {}

namespace Optimizer

variable (a : Optimizer)

def setting (tier : Tier) : Setting :=
  ⟨a.catalog, a.validator, tier, a.settings.weights, a.settings.mutations,
    Number.countsBelow a.settings.retries, a.settings.patience⟩

def grade (e : Expr) : Grade :=
  Score.total a.catalog a.settings.weights e

/-- Where the search of a candidate starts. -/
def start (k : Candidate) : Climb :=
  ⟨k.root, a.grade k.root, .ofInt (seedFor a.settings.seed k.id).toNat, {}, [a.grade k.root], 0⟩

/-- Climb from a candidate that the validator accepts. -/
def search (k : Candidate) (iterations : Float) : Logged Fault Result :=
  match Number.toInt? iterations with
  | some (.ofNat budget) => do
    let report := a.validator.validate k
    if report.accepted then
      let initial := a.grade k.root
      let (last, n, reason, improvements) := (a.setting k.tier).rounds budget 0 (a.start k)
      for i in improvements do
        Logged.note .debug (s!"{k.id} round {i.round}: {i.mutation.name} "
          ++ Number.text i.before.toFloat ++ " -> " ++ Number.text i.after.toFloat)
      Logged.note .info (s!"Optimized {k.id}: "
        ++ Number.text initial.toFloat ++ " -> " ++ Number.text last.grade.toFloat
        ++ s!" in {n} round(s) ({reason.name})")
      let best := a.validator.review { k with root := last.best, score := last.grade.toFloat }
      return ⟨best, initial, n, reason, last.stats, last.history.reverse⟩
    else Logged.fail (.rejected k.id report.violations)
  | _ => Logged.fail (.badIterations iterations k.id)

end Optimizer

/-- Climb on the catalog that the validator checks against. -/
def Validator.search (v : Validator) (o : Settings) (k : Candidate) (iterations : Float) :
    Logged Fault Result :=
  ({ catalog := v.catalog, validator := v, settings := o } : Optimizer).search k iterations

end AlphaFoundry
