/-
# AlphaFoundry.Proofs.Validation.Review -- reports and reviewed candidates

A report accepts exactly if it has no violations, whatever the rules are.  A reviewed candidate
carries the report and the status that goes with it.
-/
import Mathlib
import AlphaFoundry.Validation.Validator

namespace AlphaFoundry

set_option autoImplicit false

namespace Validator

variable {v : Validator} {k : Candidate}

theorem validate_accepted_iff :
    (v.validate k).accepted = true ↔ v.validate k = ⟨true, []⟩ := by
  refine ⟨fun accepted => ?_, fun clean => by rw [clean]⟩
  have none : (v.validate k).violations = [] := List.isEmpty_iff.1 accepted
  exact Report.mk.injEq .. ▸ ⟨accepted, none⟩

theorem validate_refused_iff :
    (v.validate k).accepted = false ↔ (v.validate k).violations ≠ [] :=
  List.isEmpty_eq_false_iff

theorem review_of_accepted (accepted : (v.validate k).accepted = true) :
    v.review k = { k with status := .accepted, report := some ⟨true, []⟩ } := by
  unfold review
  rw [validate_accepted_iff.1 accepted]
  rfl

theorem review_of_refused (refused : (v.validate k).accepted = false) :
    v.review k = { k with status := .rejected, report := some (v.validate k) } := by
  unfold review
  dsimp only
  rw [if_neg (by rw [refused]; decide)]

end Validator

end AlphaFoundry
