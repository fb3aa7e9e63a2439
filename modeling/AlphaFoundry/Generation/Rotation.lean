/-
# AlphaFoundry.Generation.Rotation -- taking turns among ids

A rotation draws ids by base weight times age, the number of commits since the id was committed
last.  A strict rotation first exhausts the ids that were never committed, and then leaves out the
last one committed as long as there is another.
-/
import AlphaFoundry.Rng.Scaled

namespace AlphaFoundry

set_option autoImplicit false

structure Rotation (α : Type) where
  ids : List String
  weight : String → α
  strict : Bool := true
  /-- The committed ids, the latest first. -/
  history : List String := []

namespace Rotation

variable {α : Type} (rot : Rotation α)

/-- Commits since the last one of an id; for an id without one, one more than there are commits. -/
def age (id : String) : Nat :=
  match rot.history.idxOf? id with
  | some n => n
  | none => rot.history.length + 1

/-- Record a pick that was used. -/
def commit (id : String) : Rotation α :=
  { rot with history := id :: rot.history }

/-- The first list that is not empty. -/
def firstNonEmpty {β : Type} (a b : List β) : List β :=
  if a.isEmpty then b else a

/-- The ids that a pick draws from. -/
def eligible (exclude : List String) : List String :=
  let available := rot.ids.filter fun id => !exclude.contains id
  if rot.strict then
    firstNonEmpty (available.filter fun id => !rot.history.contains id)
      (firstNonEmpty (available.filter fun id => rot.history.head? != some id) available)
  else available

/-- Draw an id that is not excluded; nothing, and no draw, if there is none. -/
def pick? [Scale α] (exclude : List String) (r : Rng) : Option String × Rng :=
  let ids := rot.eligible exclude
  if ids.isEmpty then (none, r)
  else r.pickWeighted? ids fun id => Scale.mul (rot.weight id) (Scale.ofNat (rot.age id))

end Rotation

end AlphaFoundry
