/-
# AlphaFoundry.Expr.Visit -- every node of a formula, in pre-order

A visit records a node with its path, the labels of its children and the operator above it.  Rules,
scores and mutations look at formulas through their visits.
-/
import AlphaFoundry.Expr.Basic

namespace AlphaFoundry

set_option autoImplicit false

structure Visit where
  path : Path
  label : Label
  children : List Label
  /-- The operator that the node is an argument of; nothing at the root. -/
  parent : Option String

/-- The depth of a visited node; the root has depth 1. -/
def Visit.depth (v : Visit) : Nat :=
  v.path.length + 1

/-- The position among the arguments of the node above; 0 at the root. -/
def Visit.position (v : Visit) : Nat :=
  v.path.getLastD 0

namespace Expr

mutual

def visitsFrom (path : Path) (parent : Option String) : Expr → List Visit
  | field id => [⟨path, .field id, [], parent⟩]
  | literal value => [⟨path, .literal value, [], parent⟩]
  | apply operator children window =>
    ⟨path, .apply operator window, children.map label, parent⟩
      :: childVisits path operator 0 children

/-- Visits of the arguments from position `i` on. -/
def childVisits (path : Path) (operator : String) (i : Nat) : List Expr → List Visit
  | [] => []
  | e :: rest =>
    visitsFrom (path ++ [i]) (some operator) e ++ childVisits path operator (i + 1) rest

end

def visits (e : Expr) : List Visit :=
  e.visitsFrom [] none

end Expr

namespace Visit

/-- The greatest depth among visited nodes. -/
def maxDepth (vs : List Visit) : Nat :=
  vs.foldl (fun d v => max d v.depth) 0

/-- Field ids in the order of their first visits. -/
def fieldIds (vs : List Visit) : List String :=
  vs.filterMap fun v =>
    match v.label with
    | .field id => some id
    | _ => none

/-- How often each field is visited, in the order of first visits. -/
def fieldUsage (vs : List Visit) : List (String × Nat) :=
  (fieldIds vs).eraseDups.map fun id => (id, (fieldIds vs).count id)

end Visit

namespace Expr

def depth (e : Expr) : Nat :=
  Visit.maxDepth e.visits

def nodeCount (e : Expr) : Nat :=
  e.visits.length

end Expr

end AlphaFoundry
