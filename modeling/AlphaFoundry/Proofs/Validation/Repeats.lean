/-
# AlphaFoundry.Proofs.Validation.Repeats -- what is reported of cycles and shared nodes

A node that is met again is reported once for every edge that leads to it again, as a cycle or as
shared, and its texts are those of no other finding.  So these reports can be counted: there are as
many as there are edges too many for a tree.
-/
import Mathlib
import AlphaFoundry.Proofs.Expr.Edges
import AlphaFoundry.Validation.Validator

namespace AlphaFoundry

set_option autoImplicit false

/-- The violation tells of a node that was met before. -/
def Violation.tellsRepeat (v : Violation) : Bool :=
  v.reason = "Node is its own ancestor (cycle)" || v.reason = "Node is shared between parents"

/-- What is to be reported of an encounter that is not fresh. -/
def Encounter.repeated (e : Encounter) : Violation :=
  ⟨.shape,
    if e.isCycle then "Node is its own ancestor (cycle)" else "Node is shared between parents",
    .critical, some e.path.text⟩

namespace Finding

/-- No other finding has one of the two texts.  (`delta`, since the equations of `reason` take long
to derive.) -/
theorem tellsRepeat_violation (f : Finding) :
    f.violation.tellsRepeat = true ↔ ∃ p, f = .cycle p ∨ f = .shared p := by
  have told : f.violation.tellsRepeat = true ↔
      f.reason = "Node is its own ancestor (cycle)" ∨
        f.reason = "Node is shared between parents" := by
    rw [Violation.tellsRepeat, Bool.or_eq_true, decide_eq_true_iff, decide_eq_true_iff]
    rfl
  have other (differ : f.reason.toList.take 4 ≠ "Node".toList) :
      ¬f.violation.tellsRepeat = true := by
    rw [told]
    rintro (same | same)
    · exact differ (by rw [same]; decide)
    · exact differ (by rw [same]; decide)
  cases f with
  | cycle p => exact iff_of_true (told.2 (.inl rfl)) ⟨p, .inl rfl⟩
  | shared p => exact iff_of_true (told.2 (.inr rfl)) ⟨p, .inr rfl⟩
  | misplaced role operator p =>
      refine iff_of_false (other ?_) (by simp)
      delta reason
      cases role <;> simp [wrapping, String.toList_append, toString]
  | _ =>
      refine iff_of_false (other ?_) (by simp)
      delta reason
      simp [String.toList_append, toString]

end Finding

namespace Rules

variable {c : Catalog}

/-- What is wrong with a node in itself is not that it is met again. -/
theorem nodeFindings_once {v : Visit} {f : Finding} (member : f ∈ nodeFindings c v) :
    ¬f.violation.tellsRepeat = true := by
  rw [Finding.tellsRepeat_violation]
  rintro ⟨p, rfl | rfl⟩
  all_goals
    unfold nodeFindings windowFindings at member
    repeat' split at member
    all_goals simp at member

/-- An encounter is reported as a repeat once if it is not fresh, and otherwise not at all. -/
theorem repeats_of_encounter (e : Encounter) :
    ((encounterFindings c e).map Finding.violation).filter Violation.tellsRepeat =
      if e.isFresh then [] else [e.repeated] := by
  cases e with
  | fresh v =>
      rw [Encounter.isFresh, if_pos rfl, List.filter_eq_nil_iff]
      intro told member
      obtain ⟨f, found, rfl⟩ := List.mem_map.1 member
      exact nodeFindings_once found
  | cycle p =>
      have told := (Finding.tellsRepeat_violation (.cycle p)).2 ⟨p, .inl rfl⟩
      exact List.filter_cons_of_pos told
  | shared p =>
      have told := (Finding.tellsRepeat_violation (.shared p)).2 ⟨p, .inr rfl⟩
      exact List.filter_cons_of_pos told

theorem repeats_of_encounters (es : List Encounter) :
    ((es.flatMap (encounterFindings c)).map Finding.violation).filter Violation.tellsRepeat =
      (es.filter fun e => !e.isFresh).map Encounter.repeated := by
  induction es with
  | nil => rfl
  | cons e es ih =>
      rw [List.flatMap_cons, List.map_append, List.filter_append, repeats_of_encounter, ih]
      cases e <;> rfl

end Rules

namespace Validator

variable (c : Catalog) (tier : Tier) (cap : Float) (g : Graph)

/-- Each edge of a graph is followed once, and each that does not lead to a new node is reported
once; so there are as many such reports as edges too many for a tree. -/
theorem repeats_counted :
    let shape : Validator := { catalog := c, cap, rules := [.shape] }
    let repeats := (shape.validateGraph g tier).violations.filter Violation.tellsRepeat
    g.Accounts ∧
      repeats = (g.encounters.filter fun e => !e.isFresh).map Encounter.repeated ∧
      (repeats.length : Int) =
        (∑ i ∈ g.reached, (g.childrenOf i).length : Nat) - (g.reached.card - 1 : Int) ∧
      (repeats = [] ↔ g.OnePath) := by
  intro shape repeats
  have told : repeats = (g.encounters.filter fun e => !e.isFresh).map Encounter.repeated := by
    rw [← Rules.repeats_of_encounters (c := c)]
    simp only [repeats, shape, validateGraph, report, findings, RuleId.check, Graph.survey,
      List.flatMap_cons, List.flatMap_nil, List.append_nil]
  refine ⟨g.accounts, told, ?_, ?_⟩
  · rw [told, List.length_map, ← List.countP_eq_length_filter, Graph.again_count]
  · rw [told, List.map_eq_nil_iff, List.filter_eq_nil_iff, ← Graph.encounters_fresh_iff]
    refine forall₂_congr fun e _ => ?_
    cases e <;> simp [Encounter.isFresh]

end Validator

end AlphaFoundry
