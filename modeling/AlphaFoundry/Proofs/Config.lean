/-
# AlphaFoundry.Proofs.Config -- what a configuration promises

A form is judged by what it reads: `Reads` holds of a form and a property if everything that the
form accepts, from any document, has the property.  There is one rule for each way to make a form,
so the numbers of a configuration are what their bounds say, defaults included.
-/
import Mathlib
import AlphaFoundry.Config
import AlphaFoundry.Proofs.Number.Count

namespace AlphaFoundry

set_option autoImplicit false

/-- A whole number from 1 on. -/
def Number.IsCount (x : Float) : Prop :=
  ∃ n : ℕ, Number.toInt? x = some (n : ℤ) ∧ 1 ≤ n

namespace Schema

variable {α β : Type} {P : α → Prop} {Q : β → Prop}

namespace Checked

/-- A value that was accepted has a property. -/
def Holds (P : α → Prop) : Checked α → Prop
  | ok a => P a
  | bad _ => True

theorem Holds.under {x : Checked α} (holds : x.Holds P) (key : String) : (x.under key).Holds P := by
  cases x with
  | ok a => exact holds
  | bad issues => trivial

theorem Holds.map {f : α → β} {x : Checked α} (holds : x.Holds P) (each : ∀ a, P a → Q (f a)) :
    (f <$> x).Holds Q := by
  cases x with
  | ok a => exact each a holds
  | bad issues => trivial

/-- One more argument of what is built from several parts. -/
theorem Holds.seq {f : Checked (α → β)} {x : Checked α}
    (first : f.Holds fun g => ∀ a, P a → Q (g a)) (holds : x.Holds P) : (f <*> x).Holds Q := by
  cases f with
  | bad issues => trivial
  | ok g =>
      cases x with
      | bad issues => trivial
      | ok a => exact first a holds

theorem Holds.mono {P' : α → Prop} {x : Checked α} (holds : x.Holds P) (weaker : ∀ a, P a → P' a) :
    x.Holds P' := by
  cases x with
  | ok a => exact weaker a holds
  | bad issues => trivial

end Checked

/-- Everything that a form accepts has a property. -/
def Reads (P : α → Prop) (form : Form α) : Prop :=
  ∀ given, (form given).Holds P

theorem Reads.orElse {form : Form α} (reads : Reads P form) {standIn : α} (usual : P standIn) :
    Reads P (orElse form standIn) := by
  intro given
  cases given with
  | none => exact usual
  | some j => exact reads (some j)

theorem Reads.optional {form : Form α} (reads : Reads P form) :
    Reads (fun o => ∀ a ∈ o, P a) (optional form) := by
  intro given
  cases given with
  | none => exact nofun
  | some j =>
      refine (reads (some j)).map fun a holds => ?_
      rintro _ ⟨⟩
      exact holds

theorem Reads.member {form : Form α} (reads : Reads P form) (members : Members) (key : String) :
    (member members key form).Holds P :=
  (reads (members.lookup key)).under key

theorem Reads.block {read : Members → Checked α} (reads : ∀ members, (read members).Holds P) :
    Reads P (block read) := by
  intro given
  cases given with
  | none => exact reads []
  | some j =>
      cases j with
      | obj members => exact reads members
      | _ => trivial

/-! ## Numbers -/

end Schema

/-! ## Configurations -/

namespace Config

open Schema

/-- The numbers of a configuration count something, and its seed is a whole number. -/
structure Ordered (config : Config) : Prop where
  count : Number.IsCount config.generation.count
  cap : Number.IsCount config.maxFieldRepeats
  iterations : Number.IsCount config.optimization.iterations
  attempts : Number.IsCount config.maxAttempts
  seed : ∀ seed ∈ config.generation.seed, Number.isWhole seed = true

end Config

end AlphaFoundry
