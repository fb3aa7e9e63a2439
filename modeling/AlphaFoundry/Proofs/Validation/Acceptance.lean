/-
# AlphaFoundry.Proofs.Validation.Acceptance -- which formulas are accepted

The rules use two traversals that disagree about graphs with shared nodes and cycles.  They need not
agree there: the encounters alone refuse every graph that is not a tree, and of a tree both tell the
same outline.
-/
import Mathlib
import AlphaFoundry.Proofs.Expr.Reach
import AlphaFoundry.Proofs.Validation.Conformance

namespace AlphaFoundry

set_option autoImplicit false

namespace Validator

/-- A graph with a second path to a node is refused, whatever else holds of it. -/
theorem onePath_of_accepted {c : Catalog} {tier : Tier} {cap : Float} {g : Graph}
    (accepted : (({ catalog := c, cap } : Validator).validateGraph g tier).accepted = true) :
    g.OnePath := by
  rw [validateGraph, report_builtin] at accepted
  have clean : ({ catalog := c, cap } : Validator).findings tier g.survey = [] :=
    List.isEmpty_iff.1 accepted
  have shape : g.encounters.flatMap (Rules.encounterFindings c) = [] :=
    List.flatMap_eq_nil_iff.1 clean .shape List.mem_cons_self
  rw [← Graph.encounters_fresh_iff]
  intro e met
  have none := List.flatMap_eq_nil_iff.1 shape e met
  cases e with
  | fresh v => exact ⟨v, rfl⟩
  | cycle path => cases none
  | shared path => cases none

/-- Exactly the formulas that conform are accepted: graphs, if they are trees, and trees. -/
theorem accepted_iff_conforms (c : Catalog) (tier : Tier) (cap : Float) :
    (∀ g : Graph, (({ catalog := c, cap } : Validator).validateGraph g tier).accepted = true ↔
      g.OnePath ∧ g.outline.Conforms c tier cap) ∧
    ∀ e : Expr, (({ catalog := c, cap } : Validator).validateTree e tier).accepted = true ↔
      e.outline.Conforms c tier cap := by
  refine ⟨fun g => ⟨fun accepted => ?_, ?_⟩, fun e => e.survey_shows.accepted_iff⟩
  · have tree := onePath_of_accepted accepted
    exact ⟨tree, (Graph.survey_shows tree).accepted_iff.1 accepted⟩
  · rintro ⟨tree, conforms⟩
    exact (Graph.survey_shows tree).accepted_iff.2 conforms

end Validator

end AlphaFoundry
