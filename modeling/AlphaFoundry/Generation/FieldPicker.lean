/-
# AlphaFoundry.Generation.FieldPicker -- which field goes into a slot

A picker keeps what it picked for one candidate.  Among the fields of the wanted domains it prefers,
in this order, fields picked fewer times than the cap, fields not to be avoided, and fields of
categories not picked before; among the best it draws evenly.
-/
import AlphaFoundry.Rng
import AlphaFoundry.Catalog.Basic

namespace AlphaFoundry

set_option autoImplicit false

structure FieldPicker where
  catalog : Catalog
  cap : Nat
  /-- The picks so far, the latest first. -/
  picked : List Field := []

namespace FieldPicker

variable (p : FieldPicker)

def timesPicked (id : String) : Nat :=
  p.picked.countP (·.id == id)

def isUnderCap (f : Field) : Bool :=
  p.timesPicked f.id < p.cap

def isFreshCategory (f : Field) : Bool :=
  !p.picked.any (·.category == f.category)

/-- The members with a property; all of them if none has it. -/
def prefer {α : Type} (property : α → Bool) (items : List α) : List α :=
  let chosen := items.filter property
  if chosen.isEmpty then items else chosen

/-- The fields that a pick draws from. -/
def pool (domains avoid : List String) : List Field :=
  prefer p.isFreshCategory
    (prefer (fun f => !avoid.contains f.id)
      (prefer p.isUnderCap (p.catalog.fieldsByDomain domains)))

def canSupply (domains : List String) : Bool :=
  !(p.catalog.fieldsByDomain domains).isEmpty

/-- Pick a field; nothing if no field produces one of the domains. -/
def pick? (domains avoid : List String) (r : Rng) : Option (Field × FieldPicker) × Rng :=
  let pool := p.pool domains avoid
  if pool.isEmpty then (none, r)
  else
    let (f, r) := r.pick? pool
    (f.map fun f => (f, { p with picked := f :: p.picked }), r)

end FieldPicker

end AlphaFoundry
