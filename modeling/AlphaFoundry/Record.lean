/-
# AlphaFoundry.Record -- candidates as they are stored and shown

A record holds the written formula in place of the tree.  `toJson` and `form` are the two sides of
the stored form.
-/
import AlphaFoundry.Candidate
import AlphaFoundry.Expr.Render
import AlphaFoundry.Schema

namespace AlphaFoundry

set_option autoImplicit false

structure Record where
  id : String
  expression : String
  tier : Tier
  skeletonId : String
  neutralization : String
  normalization : String
  score : Float
  status : Status
  violations : List Violation

/-- The record of a candidate; without a report it has no violations. -/
def Candidate.record (c : Catalog) (k : Candidate) : Record where
  id := k.id
  expression := k.root.render c
  tier := k.tier
  skeletonId := k.skeletonId
  neutralization := k.neutralization
  normalization := k.normalization
  score := k.score
  status := k.status
  violations := (k.report.map Report.violations).getD []

def Violation.toJson (v : Violation) : Json :=
  .obj ([("ruleId", .str v.ruleId.name), ("severity", .str v.severity.name),
    ("reason", .str v.reason)] ++ (v.path.map fun p => ("path", Json.str p)).toList)

namespace Record

def toJson (r : Record) : Json :=
  .obj [("id", .str r.id), ("expression", .str r.expression), ("tier", .str r.tier.name),
    ("skeletonId", .str r.skeletonId), ("neutralization", .str r.neutralization),
    ("normalization", .str r.normalization), ("score", .num r.score),
    ("status", .str r.status.name), ("violations", .arr (r.violations.map Violation.toJson))]

open Schema

def violationForm : Form Violation :=
  object fun m =>
    Violation.mk <$> member m "ruleId" (oneOf RuleId.name RuleId.all) <*> member m "reason" text
      <*> member m "severity" (oneOf Severity.name Severity.all)
      <*> member m "path" (optional text)

def form : Form Record :=
  object fun m =>
    Record.mk <$> member m "id" text <*> member m "expression" text
      <*> member m "tier" (oneOf Tier.name Tier.all)
      <*> member m "skeletonId" text
      <*> member m "neutralization" text
      <*> member m "normalization" text
      <*> member m "score" number
      <*> member m "status" (oneOf Status.name Status.all)
      <*> member m "violations" (list violationForm)

end Record

end AlphaFoundry
