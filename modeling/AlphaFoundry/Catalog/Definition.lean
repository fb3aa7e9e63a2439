/-
# AlphaFoundry.Catalog.Definition -- fields, operators and their domains

A definition lists what formulas can be built from: data fields, and operators with the domains
they accept and produce.  Nothing is checked here; `Catalog.Issue` says what can be wrong with one.
-/
import AlphaFoundry.Number.Binary

namespace AlphaFoundry

set_option autoImplicit false

inductive Arity where
  | unary
  | binary
  | windowed
deriving Repr, DecidableEq

namespace Arity

def name : Arity → String
  | .unary => "unary"
  | .binary => "binary"
  | .windowed => "windowed"

def all : List Arity := [.unary, .binary, .windowed]

/-- How many arguments an operator takes; a window length is no argument. -/
def childCount : Arity → Nat
  | .binary => 2
  | _ => 1

end Arity

inductive OperatorCategory where
  | arithmetic
  | timeSeries
  | crossSectional
  | transform
  | group
deriving Repr, DecidableEq

namespace OperatorCategory

def name : OperatorCategory → String
  | .arithmetic => "arithmetic"
  | .timeSeries => "time_series"
  | .crossSectional => "cross_sectional"
  | .transform => "transform"
  | .group => "group"

def all : List OperatorCategory := [.arithmetic, .timeSeries, .crossSectional, .transform, .group]

end OperatorCategory

/-- What an operator does when it wraps a whole formula. -/
inductive Role where
  | neutralize
  | normalize
deriving Repr, DecidableEq

namespace Role

def name : Role → String
  | .neutralize => "neutralize"
  | .normalize => "normalize"

def all : List Role := [.neutralize, .normalize]

end Role

/-- The window lengths an operator allows, both ends included. -/
structure WindowRange where
  min : Float
  max : Float

/-- Both ends as whole numbers, if they are. -/
def WindowRange.bounds? (w : WindowRange) : Option (Int × Int) :=
  match Number.toInt? w.min, Number.toInt? w.max with
  | some low, some high => some (low, high)
  | _, _ => none

structure Field where
  id : String
  category : String
  domain : String
  description : Option String := none
deriving Repr, DecidableEq

structure Operator where
  id : String
  category : OperatorCategory
  arity : Arity
  /-- Accepted domains, one list for each argument. -/
  inputs : List (List String)
  output : String
  /-- The written form, with a numbered place for each argument and one for the window. -/
  template : String
  window : Option WindowRange := none
  role : Option Role := none
  tags : List String := []
  description : Option String := none

namespace Operator

/-- The domains accepted by an argument; none for an argument that is not there. -/
def slot (op : Operator) (i : Nat) : List String :=
  op.inputs.getD i []

end Operator

structure Definition where
  domains : List String
  fields : List Field
  operators : List Operator

end AlphaFoundry
