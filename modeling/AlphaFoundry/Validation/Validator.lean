/-
# AlphaFoundry.Validation.Validator -- formulas and candidates under a list of rules

All rules are run, in their order; a formula without violations is accepted.  Nothing is repaired.
-/
import AlphaFoundry.Log
import AlphaFoundry.Validation.Rules

namespace AlphaFoundry

set_option autoImplicit false

/-- How often a field may be referenced unless a caller says otherwise. -/
def defaultFieldCap : Float := 3

/-- A rule that a caller brings along: what it reports of a formula, with a field cap. -/
abbrev Rule := Catalog → Tier → Float → Survey → List Violation

structure Validator where
  catalog : Catalog
  cap : Float := defaultFieldCap
  /-- The built-in rules to check. -/
  rules : List RuleId := RuleId.all
  /-- Rules to check behind the built-in ones. -/
  others : List Rule := []

namespace Validator

variable (v : Validator)

def findings (tier : Tier) (s : Survey) : List Finding :=
  v.rules.flatMap (RuleId.check v.catalog tier v.cap s)

def report (tier : Tier) (s : Survey) : Report :=
  let violations := (v.findings tier s).map Finding.violation
    ++ v.others.flatMap fun rule => rule v.catalog tier v.cap s
  ⟨violations.isEmpty, violations⟩

def validateTree (e : Expr) (tier : Tier) : Report :=
  v.report tier e.survey

def validateGraph (g : Graph) (tier : Tier) : Report :=
  v.report tier g.survey

def validate (k : Candidate) : Report :=
  v.validateTree k.root k.tier

/-- The candidate with its report. -/
def review (k : Candidate) : Candidate :=
  let report := v.validate k
  { k with status := if report.accepted then .accepted else .rejected, report := some report }

end Validator

structure ReviewedBatch where
  accepted : List Candidate
  rejected : List Candidate

namespace Validator

def sort (reviewed : List Candidate) : ReviewedBatch :=
  ⟨reviewed.filter fun k => k.status = .accepted, reviewed.filter fun k => k.status ≠ .accepted⟩

def reviewBatch {ε : Type} (v : Validator) (ks : List Candidate) : Logged ε ReviewedBatch := do
  let batch := sort (ks.map v.review)
  let count := batch.accepted.length
  Logged.note .debug s!"{count} of {ks.length} alphas are valid"
  return batch

end Validator

end AlphaFoundry
