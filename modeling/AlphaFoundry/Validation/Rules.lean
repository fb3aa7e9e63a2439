/-
# AlphaFoundry.Validation.Rules -- the rules, each on its own

Every rule looks at the whole formula and reports everything it finds, in pre-order.
-/
import AlphaFoundry.Expr.Graph
import AlphaFoundry.Validation.Finding

namespace AlphaFoundry

set_option autoImplicit false

/-- A whole number inside the range. -/
def WindowRange.allows (range : WindowRange) (window : Float) : Bool :=
  match Number.toInt? window, range.bounds? with
  | some w, some (low, high) => low ≤ w && w ≤ high
  | _, _ => false

namespace Rules

variable (c : Catalog)

/-! ## Shape -/

def windowFindings (op : Operator) (window : Option Float) (path : Path) : List Finding :=
  match op.window, window with
  | some range, some w => if range.allows w then [] else [.windowOutside op range w path]
  | some _, none => [.missingWindow op path]
  | none, some _ => [.strayWindow op path]
  | none, none => []

/-- What is wrong with a node in itself. -/
def nodeFindings (v : Visit) : List Finding :=
  match v.label with
  | .field id => if (c.field? id).isSome then [] else [.unknownField id v.path]
  | .literal value => if value.isFinite then [] else [.notFinite value v.path]
  | .apply operator window =>
    match c.operator? operator with
    | none => [.unknownOperator operator v.path]
    | some op =>
      (if v.children.length = op.arity.childCount then []
        else [.argumentCount op v.children.length v.path])
      ++ windowFindings op window v.path

def encounterFindings : Encounter → List Finding
  | .fresh v => nodeFindings c v
  | .cycle path => [.cycle path]
  | .shared path => [.shared path]

/-! ## Domains -/

/-- An argument in a slot that does not accept what it produces.  Arguments without a slot, and
those whose domain is not known, are another rule's matter. -/
def argumentFindings (op : Operator) (path : Path) (i : Nat) (child : Label) : List Finding :=
  match op.inputs[i]?, child.domain? c with
  | some accepted, some produced =>
    if accepted.contains produced then [] else [.refusedDomain op i produced (path ++ [i])]
  | _, _ => []

def domainFindings (v : Visit) : List Finding :=
  match v.label.operator?.bind c.operator? with
  | some op => v.children.zipIdx.flatMap fun (child, i) => argumentFindings c op v.path i child
  | none => []

/-! ## Placement -/

/-- A normalizing operator belongs at the root; a neutralizing one there or directly below a
normalizing root. -/
def placed (v : Visit) (role : Role) : Bool :=
  match v.path with
  | [] => true
  | [_] => role = .neutralize && v.parent.bind c.roleOf = some .normalize
  | _ => false

def placementFindings (v : Visit) : List Finding :=
  match v.label.operator? with
  | none => []
  | some operator =>
    match c.roleOf operator with
    | none => []
    | some role => if placed c v role then [] else [.misplaced role operator v.path]

/-! ## Limits and field usage -/

def limitFindings (vs : List Visit) : List Finding :=
  (if Visit.maxDepth vs > maxDepth then [.tooDeep (Visit.maxDepth vs)] else [])
    ++ (if vs.length > maxNodes then [.tooLarge vs.length] else [])

def usageFindings (cap : Float) (vs : List Visit) : List Finding :=
  let usage := Visit.fieldUsage vs
  (if usage.isEmpty then [.noField] else [])
    ++ (usage.filter fun u => Number.countAbove u.2 cap).map fun u => .repeatedField u.1 u.2 cap

end Rules

/-- What a rule finds in a formula. -/
def RuleId.check (c : Catalog) (tier : Tier) (cap : Float) (s : Survey) : RuleId → List Finding
  | .shape => s.encounters.flatMap (Rules.encounterFindings c)
  | .domain => s.visits.flatMap (Rules.domainFindings c)
  | .limits => Rules.limitFindings s.visits
  | .fieldUsage => Rules.usageFindings cap s.visits
  | .placement => if tier = .optimize then s.visits.flatMap (Rules.placementFindings c) else []

end AlphaFoundry
