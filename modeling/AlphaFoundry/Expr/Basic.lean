/-
# AlphaFoundry.Expr.Basic -- formulas as trees

A formula is a data field, a literal, or an operator applied to formulas, with a window length if
the operator takes one.  Nodes are addressed by paths of child indices from the root.
-/
import AlphaFoundry.Catalog.Basic

namespace AlphaFoundry

set_option autoImplicit false

inductive Expr where
  | field (id : String)
  | literal (value : Float)
  | apply (operator : String) (children : List Expr) (window : Option Float)
deriving Inhabited

/-- What a node says apart from its children. -/
inductive Label where
  | field (id : String)
  | literal (value : Float)
  | apply (operator : String) (window : Option Float)

/-- Child indices from the root down to a node. -/
abbrev Path := List Nat

/-- Literals are scalars of the unbounded domain. -/
def literalDomain : String := "real"

namespace Label

/-- The operator of an application. -/
def operator? : Label → Option String
  | apply operator _ => some operator
  | _ => none

/-- The domain a node produces; nothing if the catalog does not know it. -/
def domain? (c : Catalog) : Label → Option String
  | field id => (c.field? id).map Field.domain
  | literal _ => some literalDomain
  | apply operator _ => (c.operator? operator).map Operator.output

/-- The role of the operator at a node. -/
def role? (c : Catalog) (l : Label) : Option Role :=
  l.operator?.bind c.roleOf

end Label

/-- A path as messages show it. -/
def Path.text (p : Path) : String :=
  ".".intercalate ("root" :: p.map toString)

namespace Expr

def label : Expr → Label
  | field id => .field id
  | literal value => .literal value
  | apply operator _ window => .apply operator window

def children : Expr → List Expr
  | apply _ children _ => children
  | _ => []

/-- The node at a path, if the path stays in the tree. -/
def nodeAt? (e : Expr) : Path → Option Expr
  | [] => some e
  | i :: p => e.children[i]?.bind fun child => child.nodeAt? p

/-- The tree with another node at a path.  A path that leaves the tree changes nothing. -/
def replaceAt (e : Expr) (p : Path) (new : Expr) : Expr :=
  match p, e with
  | [], _ => new
  | i :: p, apply operator children window =>
    apply operator (children.modify i fun child => child.replaceAt p new) window
  | _ :: _, e => e
termination_by structural p

end Expr

end AlphaFoundry
