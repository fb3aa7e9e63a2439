/-
# AlphaFoundry.Candidate -- candidate formulas and their reports
-/
import AlphaFoundry.Expr.Basic

namespace AlphaFoundry

set_option autoImplicit false

/-- How much a generated formula combines: one operator, a combination, or a combination wrapped
for submission. -/
inductive Tier where
  | basic
  | creative
  | optimize
deriving Repr, DecidableEq

namespace Tier

def name : Tier → String
  | basic => "basic"
  | creative => "creative"
  | optimize => "optimize"

def all : List Tier := [basic, creative, optimize]

def ofName? (s : String) : Option Tier :=
  all.find? fun t => t.name == s

end Tier

inductive Status where
  | pending
  | accepted
  | rejected
deriving Repr, DecidableEq

namespace Status

def name : Status → String
  | pending => "pending"
  | accepted => "accepted"
  | rejected => "rejected"

def all : List Status := [pending, accepted, rejected]

end Status

inductive RuleId where
  /-- Operators, arguments, windows, leaves, and no node in two places. -/
  | shape
  | domain
  | limits
  | fieldUsage
  | placement
deriving Repr, DecidableEq

namespace RuleId

def name : RuleId → String
  | shape => "structure"
  | domain => "domain"
  | limits => "limits"
  | fieldUsage => "field_usage"
  | placement => "placement"

/-- The rules in the order in which they are checked. -/
def all : List RuleId := [shape, domain, limits, fieldUsage, placement]

end RuleId

inductive Severity where
  | low
  | medium
  | high
  | critical
deriving Repr, DecidableEq

namespace Severity

def name : Severity → String
  | low => "low"
  | medium => "medium"
  | high => "high"
  | critical => "critical"

def all : List Severity := [low, medium, high, critical]

end Severity

/-- One broken rule, as reports show it. -/
structure Violation where
  ruleId : RuleId
  reason : String
  severity : Severity
  /-- The offending node. -/
  path : Option String := none
deriving Repr, DecidableEq

structure Report where
  accepted : Bool
  violations : List Violation
deriving Repr, DecidableEq

structure Candidate where
  id : String
  tier : Tier
  /-- The skeleton that the root was drawn from. -/
  skeletonId : String
  root : Expr
  /-- `none`, or the group field that the formula is neutralized against. -/
  neutralization : String
  /-- `none`, or the operator that normalizes the formula. -/
  normalization : String
  score : Float
  status : Status
  report : Option Report := none

end AlphaFoundry
