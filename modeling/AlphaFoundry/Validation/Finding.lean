/-
# AlphaFoundry.Validation.Finding -- what a rule can find

A finding is the cause of a violation; its texts are in one place.
-/
import AlphaFoundry.Candidate

namespace AlphaFoundry

set_option autoImplicit false

/-- Limits on the size of a formula. -/
def maxDepth : Nat := 8

def maxNodes : Nat := 48

inductive Finding where
  | cycle (path : Path)
  | shared (path : Path)
  | unknownField (id : String) (path : Path)
  | notFinite (value : Float) (path : Path)
  | unknownOperator (id : String) (path : Path)
  | argumentCount (op : Operator) (count : Nat) (path : Path)
  | missingWindow (op : Operator) (path : Path)
  | windowOutside (op : Operator) (range : WindowRange) (window : Float) (path : Path)
  | strayWindow (op : Operator) (path : Path)
  /-- An argument, by its position and its path, produces a domain that the operator refuses. -/
  | refusedDomain (op : Operator) (position : Nat) (domain : String) (path : Path)
  | tooDeep (depth : Nat)
  | tooLarge (size : Nat)
  | noField
  | repeatedField (id : String) (count : Nat) (cap : Float)
  | misplaced (role : Role) (operator : String) (path : Path)

namespace Finding

def rule : Finding → RuleId
  | refusedDomain .. => .domain
  | tooDeep _ | tooLarge _ => .limits
  | noField | repeatedField .. => .fieldUsage
  | misplaced .. => .placement
  | _ => .shape

def severity : Finding → Severity
  | tooDeep _ | tooLarge _ | noField | misplaced .. => .high
  | repeatedField .. => .medium
  | _ => .critical

def path? : Finding → Option Path
  | cycle p | shared p | unknownField _ p | notFinite _ p | unknownOperator _ p
  | argumentCount _ _ p | missingWindow _ p | windowOutside _ _ _ p | strayWindow _ p
  | refusedDomain _ _ _ p | misplaced _ _ p => some p
  | tooDeep _ | tooLarge _ | noField | repeatedField .. => none

def wrapping : Role → String
  | .normalize => "Normalization"
  | .neutralize => "Neutralization"

def reason : Finding → String
  | cycle _ => "Node is its own ancestor (cycle)"
  | shared _ => "Node is shared between parents"
  | unknownField id _ => s!"Unknown field \"{id}\""
  | notFinite value _ => s!"Literal {Number.text value} is not a finite number"
  | unknownOperator id _ => s!"Unknown operator \"{id}\""
  | argumentCount op count _ =>
    s!"Operator \"{op.id}\" expects {op.arity.childCount} argument(s), got {count}"
  | missingWindow op _ => s!"Operator \"{op.id}\" is missing its window"
  | windowOutside op range window _ =>
    s!"Operator \"{op.id}\" window {Number.text window} outside "
      ++ s!"{Number.text range.min}..{Number.text range.max}"
  | strayWindow op _ => s!"Operator \"{op.id}\" does not take a window"
  | refusedDomain op position domain _ =>
    s!"Operator \"{op.id}\" argument {position + 1} accepts "
      ++ "|".intercalate (op.slot position) ++ s!", got {domain}"
  | tooDeep depth => s!"Expression depth {depth} exceeds {maxDepth}"
  | tooLarge size => s!"Expression has {size} nodes, limit is {maxNodes}"
  | noField => "Expression references no data field"
  | repeatedField id count cap =>
    s!"Field \"{id}\" referenced {count} times (max {Number.text cap})"
  | misplaced role operator _ =>
    s!"{wrapping role} operator \"{operator}\" is nested below the root"

def violation (f : Finding) : Violation :=
  ⟨f.rule, f.reason, f.severity, f.path?.map Path.text⟩

end Finding

end AlphaFoundry
