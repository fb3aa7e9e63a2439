/-
# AlphaFoundry.Generation.Skeleton -- the shapes formulas are drawn from

A basic skeleton applies one operator to fields.  A creative skeleton combines sub-formulas, each
drawn from a basic skeleton, under arithmetic and cross-sectional operators; a blend also weighs its
two sub-formulas by literals that add up to one.
-/
import AlphaFoundry.Candidate

namespace AlphaFoundry

set_option autoImplicit false

/-- The plan of a combination, from the root down. -/
inductive Shape where
  /-- A formula drawn from a basic skeleton. -/
  | sub
  /-- The weight of a blend, or what it leaves of one. -/
  | weight
  | complement
  /-- An operator with one argument. -/
  | wrap (q : Catalog.Query) (inner : Shape)
  /-- An operator with two arguments. -/
  | join (q : Catalog.Query) (left right : Shape)

inductive Plan where
  | basic (q : Catalog.Query)
  | combined (shape : Shape)
  /-- A weight is drawn before anything else. -/
  | blended (shape : Shape)

structure Skeleton where
  id : String
  /-- The base weight in a rotation. -/
  weight : Nat
  plan : Plan

namespace Skeleton

open Shape

def tier (s : Skeleton) : Tier :=
  match s.plan with
  | .basic _ => .basic
  | _ => .creative

def combine : Catalog.Query :=
  { arity := some .binary, category := some .arithmetic }

def additive : Catalog.Query :=
  { combine with tag := some "additive" }

def multiplicative : Catalog.Query :=
  { combine with tag := some "multiplicative" }

def crossSectional : Catalog.Query :=
  { arity := some .unary, category := some .crossSectional }

def smoothing : Catalog.Query :=
  { arity := some .windowed, category := some .timeSeries, tag := some "smoothing" }

def lag : Catalog.Query :=
  { arity := some .windowed, category := some .timeSeries, tag := some "lag" }

def transform : Catalog.Query :=
  { arity := some .unary, category := some .transform }

/-- Two sub-formulas under one operator. -/
def pairShape : Shape :=
  join combine sub sub

/-- Three sub-formulas under two operators. -/
def chainShape : Shape :=
  join combine pairShape sub

def basics : List Skeleton := [
  ⟨"cross_rank", 1, .basic crossSectional⟩,
  ⟨"ts_window", 1, .basic smoothing⟩,
  ⟨"lagged", 1, .basic lag⟩,
  ⟨"ratio", 1, .basic multiplicative⟩,
  ⟨"spread", 1, .basic additive⟩,
  ⟨"transform", 1, .basic transform⟩]

def creatives : List Skeleton := [
  ⟨"pair", 3, .combined pairShape⟩,
  ⟨"ranked_pair", 3, .combined (wrap crossSectional pairShape)⟩,
  ⟨"smoothed_pair", 2, .combined (wrap smoothing pairShape)⟩,
  ⟨"chain3", 2, .combined chainShape⟩,
  ⟨"balanced4", 2, .combined (join combine pairShape pairShape)⟩,
  ⟨"weighted_blend", 2, .blended
    (join additive (join multiplicative sub .weight) (join multiplicative sub .complement))⟩,
  ⟨"ranked_chain3", 1, .combined (wrap crossSectional chainShape)⟩]

def all : List Skeleton := basics ++ creatives

/-- The base weight of an id. -/
def weightOf (id : String) : Nat :=
  match all.find? fun s => s.id == id with
  | some s => s.weight
  | none => 1

end Skeleton

end AlphaFoundry
