/-
# AlphaFoundry.Proofs.Validation.Edit -- one label in place of another

A small change of a formula puts another label at one path and leaves the arguments alone.  What the
rules ask of the rest is unaffected; what they ask at the path, of the arguments there and of the
place above is `Replaces`.  How often fields are referenced changes by one at most.
-/
import Mathlib
import AlphaFoundry.Proofs.Validation.Conformance

namespace AlphaFoundry

set_option autoImplicit false

namespace Outline

variable {c : Catalog} {tier : Tier} {cap : Float} {t : Outline} {p : Path} {l new : Label}

/-- Fitting at a path depends on which paths below are labelled, not on their labels. -/
theorem NodeFits.congr {u : Outline} (same : ∀ q, (u q).isSome = (t q).isSome) {q : Path}
    {m : Label} (fits : t.NodeFits c q m) : u.NodeFits c q m := by
  cases m with
  | field id => exact fits
  | literal value => exact fits
  | apply operator window =>
      obtain ⟨op, found, count, takes⟩ := fits
      exact ⟨op, found, fun i => by rw [same]; exact count i, takes⟩

/-- A label that may stand at a path in place of the one that is there. -/
structure Replaces (c : Catalog) (t : Outline) (p : Path) (l new : Label) : Prop where
  old : t p = some l
  node : t.NodeFits c p new
  arguments : ∀ operator window op i child, new = .apply operator window →
    c.operator? operator = some op → t (p ++ [i]) = some child →
      ∃ d, child.domain? c = some d ∧ d ∈ op.slot i
  place : ∀ q i operator window op, p = q ++ [i] → t q = some (.apply operator window) →
    c.operator? operator = some op → ∃ d, new.domain? c = some d ∧ d ∈ op.slot i
  unwrapped : l.role? c = none
  plain : new.role? c = none

theorem isSome_put (old : t p = some l) (q : Path) :
    (t.put p new q).isSome = (t q).isSome := by
  by_cases here : q = p
  · rw [here, put_self, old]
    rfl
  · rw [put_of_ne _ _ here]

theorem WellBuilt.put (built : t.WellBuilt c tier) (edit : Replaces c t p l new) :
    (t.put p new).WellBuilt c tier := by
  have same (q : Path) : (t.put p new q).isSome = (t q).isSome := isSome_put edit.old q
  refine ⟨?_, ?_, ?_, ?_, ?_⟩
  · intro q m labelled
    by_cases here : q = p
    · subst here
      rw [put_self] at labelled
      obtain rfl := Option.some.inj labelled
      exact edit.node.congr same
    · rw [put_of_ne _ _ here] at labelled
      exact (built.nodes q m labelled).congr same
  · intro q operator window op i child labelled found below
    by_cases here : q = p
    · subst here
      rw [put_self] at labelled
      rw [put_of_ne _ _ (by simp)] at below
      exact edit.arguments operator window op i child (Option.some.inj labelled) found below
    · rw [put_of_ne _ _ here] at labelled
      by_cases there : q ++ [i] = p
      · rw [there, put_self] at below
        obtain rfl := Option.some.inj below
        exact edit.place q i operator window op there.symm labelled found
      · rw [put_of_ne _ _ there] at below
        exact built.domains q operator window op i child labelled found below
  · intro q labelled
    exact built.depth q (same q ▸ labelled)
  · simpa only [same] using built.size
  · intro optimize q operator window role labelled held
    by_cases here : q = p
    · subst here
      rw [put_self] at labelled
      obtain rfl := Option.some.inj labelled
      have none : c.roleOf operator = none := edit.plain
      rw [none] at held
      cases held
    · rw [put_of_ne _ _ here] at labelled
      rcases built.placed optimize q operator window role labelled held with root | below
      · exact .inl root
      · obtain ⟨neutralize, i, root, w, path, top, normalize⟩ := below
        refine .inr ⟨neutralize, i, root, w, path, ?_, normalize⟩
        rw [put_of_ne]
        · exact top
        · rintro rfl
          obtain rfl := Option.some.inj (edit.old.symm.trans top)
          have none : c.roleOf root = none := edit.unwrapped
          rw [none] at normalize
          cases normalize

/-- Other operators and windows reference the same fields. -/
theorem fields_put_apply {operator : String} {window : Option Float}
    (old : t p = some (.apply operator window)) (operator' : String) (window' : Option Float)
    (id : String) :
    {q | t.put p (.apply operator' window') q = some (.field id)}
      = {q | t q = some (.field id)} := by
  ext q
  simp only [Set.mem_ofPred_eq]
  by_cases here : q = p
  · rw [here, put_self, old]
    simp
  · rw [put_of_ne _ _ here]

theorem Conforms.put_apply (conforms : t.Conforms c tier cap) {operator operator' : String}
    {window window' : Option Float}
    (edit : Replaces c t p (.apply operator window) (.apply operator' window')) :
    (t.put p (.apply operator' window')).Conforms c tier cap := by
  have fields := fields_put_apply edit.old operator' window'
  refine ⟨conforms.toWellBuilt.put edit, ?_, ?_⟩
  · obtain ⟨q, id, labelled⟩ := conforms.used
    have member : q ∈ {q | t q = some (.field id)} := labelled
    rw [← fields id] at member
    exact ⟨q, id, member⟩
  · intro id bound value
    rw [fields id]
    exact conforms.capped id bound value

/-! ## Another field -/

variable {id other : String}

theorem fields_put_self :
    {q | t.put p (.field other) q = some (.field other)}
      = insert p {q | t q = some (.field other)} := by
  ext q
  simp only [Set.mem_ofPred_eq, Set.mem_insert_iff]
  by_cases here : q = p
  · simp [here, put_self]
  · simp [here, put_of_ne _ _ here]

theorem fields_put_subset {third : String} (different : third ≠ other) :
    {q | t.put p (.field other) q = some (.field third)} ⊆ {q | t q = some (.field third)} := by
  intro q labelled
  by_cases here : q = p
  · rw [Set.mem_ofPred_eq, here, put_self] at labelled
    exact absurd (Label.field.inj (Option.some.inj labelled)).symm different
  · rwa [Set.mem_ofPred_eq, put_of_ne _ _ here] at labelled

theorem WellBuilt.finite (built : t.WellBuilt c tier) : {q | (t q).isSome}.Finite :=
  Set.finite_of_encard_le_coe built.size

theorem WellBuilt.finite_fields (built : t.WellBuilt c tier) (id : String) :
    {q | t q = some (.field id)}.Finite := by
  refine built.finite.subset fun q labelled => ?_
  rw [Set.mem_ofPred_eq] at labelled ⊢
  rw [labelled]
  rfl

end Outline

/-! ## One reference too many -/

theorem countAbove_of_toInt? {n : Nat} {cap : Float} {k : Int} (whole : Number.toInt? cap = some k) :
    Number.countAbove n cap = true ↔ k < n := by
  rw [Number.countAbove_iff, Number.toInt?_eq_some.1 whole]
  simp only [Option.some.injEq, exists_eq_left', EReal.coe_lt_coe_iff]
  exact_mod_cast Iff.rfl

/-- If only one field can be referenced too often, and at most once too often, then the field usage
reports nothing or this. -/
theorem Outline.ListedBy.usageFindings_of_one {t : Outline} {vs : List Visit}
    (listed : t.ListedBy vs) {cap : Float} {k : Int} (whole : Number.toInt? cap = some k)
    {id : String} (occurs : ∃ p, t p = some (.field id))
    (once : ({p | t p = some (.field id)}.ncard : Int) ≤ k + 1)
    (others : ∀ third, third ≠ id → ({p | t p = some (.field third)}.ncard : Int) ≤ k) :
    Rules.usageFindings cap vs = [] ∨
      ∃ n : Nat, (n : Int) = k + 1 ∧ Rules.usageFindings cap vs = [.repeatedField id n cap] := by
  have member : id ∈ (Visit.fieldIds vs).eraseDups :=
    List.mem_eraseDups.2 (listed.mem_fieldIds.2 occurs)
  obtain ⟨p, labelled⟩ := occurs
  rw [listed.usageFindings_of_used ⟨p, id, labelled⟩, Visit.fieldUsage, List.filter_map,
    List.map_map]
  by_cases over_cap : k < {p | t p = some (.field id)}.ncard
  · right
    refine ⟨{p | t p = some (.field id)}.ncard, by omega, ?_⟩
    have only : (Visit.fieldIds vs).eraseDups.filter
        ((fun u => Number.countAbove u.2 cap) ∘ fun id => (id, (Visit.fieldIds vs).count id))
          = [id] := by
      have same : ∀ third ∈ (Visit.fieldIds vs).eraseDups,
          ((fun u : String × Nat => Number.countAbove u.2 cap) ∘
            fun id => (id, (Visit.fieldIds vs).count id)) third = (third == id) := by
        intro third _
        rw [Bool.eq_iff_iff, Function.comp_apply, countAbove_of_toInt? whole,
          listed.count_fieldIds, beq_iff_eq]
        constructor
        · intro above
          by_contra different
          have := others third different
          omega
        · rintro rfl
          exact over_cap
      rw [List.filter_congr same, List.filter_beq,
        List.count_eq_one_of_mem (nodup_eraseDups _) member]
      rfl
    rw [only]
    simp [listed.count_fieldIds]
  · left
    rw [List.map_eq_nil_iff, List.filter_eq_nil_iff]
    intro third _
    rw [Function.comp_apply, countAbove_of_toInt? whole, listed.count_fieldIds]
    by_cases same : third = id
    · rw [same]
      exact over_cap
    · have := others third same
      omega

end AlphaFoundry
