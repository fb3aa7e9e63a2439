/-
# AlphaFoundry.Proofs.Optimization.Wrappers -- what mutations spare of the wrapping operators

A mutant differs from the formula in the label of one node.  This node is no wrapping operator, and
no argument of one behind its first; but it may stand deeper in such an argument, since only the
node right above a visited one is looked at.  So a wrapping operator keeps a whole argument exactly
if the changed node is not inside it, and always if the argument is a leaf.
-/
import Mathlib
import AlphaFoundry.Proofs.Optimization.Frame

namespace AlphaFoundry

set_option autoImplicit false

/-! ## Formulas by their outlines -/

namespace Expr

variable {e e' : Expr} {p : Path}

/-- Two nodes that may be missing, if the labels tell what each of them is. -/
theorem option_eq_of_outline {o o' : Option Expr}
    (same : ∀ q, (o'.bind fun n => n.outline q) = o.bind fun n => n.outline q)
    (each : ∀ n ∈ o, ∀ n', n'.outline = n.outline → n' = n) : o' = o := by
  cases o' with
  | none =>
      cases o with
      | none => rfl
      | some n => cases same []
  | some n' =>
      cases o with
      | none => cases same []
      | some n => exact congrArg some (each n rfl n' (funext same))

theorem eq_of_outline (same : e'.outline = e.outline) : e' = e := by
  induction e using Expr.induction generalizing e' with
  | field id =>
      have root : e'.label = .field id := Option.some.inj (congrFun same [])
      cases e' <;> simp_all [label]
  | literal value =>
      have root : e'.label = .literal value := Option.some.inj (congrFun same [])
      cases e' <;> simp_all [label]
  | apply operator children window ih =>
      have below (i : Nat) (q : Path) : (e'.children[i]?.bind fun n => n.outline q)
          = children[i]?.bind fun n => n.outline q := by
        rw [← outline_cons, same, outline_cons]
        rfl
      have arguments : e'.children = children := by
        refine List.ext_getElem? fun i => ?_
        exact option_eq_of_outline (below i) fun n child n' => ih n (List.mem_of_getElem? child)
      rw [eq_apply_of_label (congrFun same []), arguments]

/-- A node is the same if all labels from it on are. -/
theorem nodeAt?_eq_iff :
    e'.nodeAt? p = e.nodeAt? p ↔ ∀ q, e'.outline (p ++ q) = e.outline (p ++ q) := by
  have labels (e : Expr) (q : Path) :
      e.outline (p ++ q) = (e.nodeAt? p).bind fun n => n.outline q := by
    rw [outline, nodeAt?_append, Option.map_bind]
    rfl
  simp only [labels]
  exact ⟨fun same q => by rw [same],
    fun same => option_eq_of_outline same fun n _ n' => eq_of_outline⟩

end Expr

namespace Mutation

variable {c : Catalog} {e e' : Expr} {r : Rng} {tier : Tier} {cap : Float} {p : Path}

/-- The one label that a mutation changes in a well-built formula. -/
theorem exists_put {m : Mutation} (built : e.outline.WellBuilt c tier)
    (mutant : (m.apply c e r).1 = some e') :
    ∃ v n new, Target c e v n ∧ new ≠ n.label ∧ e'.outline = e.outline.put v.path new := by
  cases m with
  | swapField =>
      obtain ⟨v, n, f, target, member, rfl⟩ := replaceField_eq mutant
      obtain ⟨id, rfl, different, -⟩ := replaces_field built target member
      refine ⟨v, _, .field f.id, target, ?_, Expr.outline_replaceAt _ target.found rfl⟩
      exact fun same => different (Label.field.inj same)
  | swapOperator =>
      obtain ⟨v, operator, children, window, op, target, member, rfl⟩ := replaceOperator_eq mutant
      obtain ⟨different, -⟩ := replaces_operator built target member
      refine ⟨v, _, _, target, ?_, Expr.outline_replaceAt _ target.found rfl⟩
      exact fun same => different (Label.apply.inj same).1
  | adjustWindow =>
      obtain ⟨v, operator, children, window, range, s, new, target, ranged, moves, moved, rfl⟩ :=
        replaceWindow_eq mutant
      obtain ⟨⟨k, value⟩, -⟩ := replaces_window built target ranged moves
      refine ⟨v, _, _, target, ?_, Expr.outline_replaceAt _ target.found rfl⟩
      intro same
      have same := Option.some.inj (Label.apply.inj same).2
      have value := Number.toInt?_eq_some.1 value
      rw [same, (Number.beq_iff value value).2 rfl] at moved
      cases moved

/-- What wrapping operators keep when the label at a path changes. -/
structure Spares (c : Catalog) (e e' : Expr) (p : Path) : Prop where
  /-- This label changes, and no other. -/
  changed : ∀ q, e'.outline q = e.outline q ↔ q ≠ p
  /-- Wrapping operators stay. -/
  wrapper : ∀ q operator window, e.outline q = some (.apply operator window) →
    c.roleOf operator ≠ none → e'.outline q = some (.apply operator window)
  /-- What stands in their places behind the first stays. -/
  argument : ∀ q operator window i, e.outline q = some (.apply operator window) →
    c.roleOf operator ≠ none → 0 < i → e'.outline (q ++ [i]) = e.outline (q ++ [i])
  /-- The whole argument in such a place stays exactly if the path does not lead into it. -/
  whole : ∀ q operator window i, e.outline q = some (.apply operator window) →
    c.roleOf operator ≠ none → 0 < i →
      (e'.nodeAt? (q ++ [i]) = e.nodeAt? (q ++ [i]) ↔ ¬ q ++ [i] <+: p)
  /-- A leaf in such a place stays. -/
  leaf : ∀ q operator window i n, e.outline q = some (.apply operator window) →
    c.roleOf operator ≠ none → 0 < i → e.nodeAt? (q ++ [i]) = some n → n.children = [] →
      e'.nodeAt? (q ++ [i]) = some n

/-- What can be said of a node that a mutation may change. -/
theorem Target.spares {v : Visit} {n : Expr} (target : Target c e v n) {new : Label}
    (different : new ≠ n.label) (put : e'.outline = e.outline.put v.path new) :
    Spares c e e' v.path := by
  have old : e.outline v.path = some n.label := target.label ▸ target.sees.label
  have changed (q : Path) : e'.outline q = e.outline q ↔ q ≠ v.path := by
    rw [put]
    refine ⟨?_, Outline.put_of_ne _ _⟩
    rintro same rfl
    rw [Outline.put_self, old] at same
    exact different (Option.some.inj same)
  have argument (q : Path) (operator : String) (window : Option Float) (i : Nat)
      (labelled : e.outline q = some (.apply operator window)) (wraps : c.roleOf operator ≠ none)
      (behind : 0 < i) : e'.outline (q ++ [i]) = e.outline (q ++ [i]) := by
    refine (changed _).2 fun here => ?_
    have first := target.eq_zero_of_wrapping here.symm labelled wraps
    omega
  have whole (p : Path) : e'.nodeAt? p = e.nodeAt? p ↔ ¬ p <+: v.path := by
    simp only [Expr.nodeAt?_eq_iff, changed]
    exact ⟨fun apart ⟨q, here⟩ => apart q here, fun apart q here => apart ⟨q, here⟩⟩
  refine ⟨changed, ?_, argument, fun q _ _ i _ _ _ => whole _, ?_⟩
  · intro q operator window labelled wraps
    refine ((changed q).2 ?_).trans labelled
    rintro rfl
    have plain := target.plain
    rw [target.label, Option.some.inj (old.symm.trans labelled)] at plain
    exact wraps plain
  · intro q operator window i n' labelled wraps behind found leaf
    have same := argument q operator window i labelled wraps behind
    refine ((whole _).2 ?_).trans found
    rintro ⟨_ | ⟨j, s⟩, here⟩
    · exact (changed _).1 same (by simpa using here)
    · rw [← here, Expr.outline_append found, Expr.outline_cons, leaf] at old
      cases old

/-- A mutant of an accepted formula differs in one label, and spares the wrapping operators: they
stay, with what stands in their places behind the first; and such an argument stays as a whole
unless the one label is deeper inside it. -/
theorem mutate_spares {ms : List Mutation} {m : Mutation}
    (accepted : (({ catalog := c, cap } : Validator).validateTree e tier).accepted = true)
    (mutant : (mutate c ms e r).1 = some (m, e')) : ∃ p, Spares c e e' p := by
  have built := (e.survey_shows.accepted_iff.1 accepted).toWellBuilt
  obtain ⟨s, applied⟩ := exists_apply_of_tryAll mutant
  obtain ⟨v, n, new, target, different, put⟩ := exists_put built applied
  exact ⟨v.path, target.spares different put⟩

/-- A sum of prices, neutralized. -/
def neutralizedSum : Expr :=
  .apply "neutralize" [.apply "add" [.field "close", .field "close"] none, .field "industry"] none

theorem mutate_spares_industry :
    (({ catalog := Catalog.small } : Validator).validateTree neutralizedSum .optimize).accepted
        = true ∧
      ∃ e', (mutate Catalog.small all neutralizedSum ⟨0⟩).1 = some (.swapField, e') ∧
        ∃ p, Spares Catalog.small neutralizedSum e' p := by
  have accepted : (({ catalog := Catalog.small } : Validator).validateTree neutralizedSum
      .optimize).accepted = true := by
    decide +kernel
  have applies : ((mutate Catalog.small all neutralizedSum ⟨0⟩).1.map Prod.fst)
      = some .swapField := by
    decide +kernel
  obtain ⟨⟨m, e'⟩, mutant, rfl⟩ := Option.map_eq_some_iff.1 applies
  exact ⟨accepted, e', mutant, mutate_spares accepted mutant⟩

end Mutation

namespace Catalog

/-- A catalog in which a group can be computed from another one. -/
def densifying : Catalog :=
  ⟨{ domains := ["real", "group"]
     fields := [⟨"close", "price", "real", none⟩, ⟨"industry", "group", "group", none⟩,
       ⟨"sector", "group", "group", none⟩]
     operators := [
       { id := "densify", category := .group, arity := .unary, inputs := [["group"]],
         output := "group", template := "densify(\x7b0\x7d)" },
       { id := "neutralize", category := .group, arity := .binary, inputs := [["real"], ["group"]],
         output := "real", template := "neutralize(\x7b0\x7d, \x7b1\x7d)",
         role := some .neutralize }] }, by decide +kernel⟩

end Catalog

namespace Mutation

/-- The group argument of a wrapping operator, where it is no leaf, is changed inside. -/
theorem mutate_regroups :
    (({ catalog := Catalog.densifying } : Validator).validateTree
        (.apply "neutralize" [.field "close", .apply "densify" [.field "industry"] none] none)
        .optimize).accepted = true ∧
      Catalog.densifying.roleOf "neutralize" = some .neutralize ∧
      (mutate Catalog.densifying [.swapField]
          (.apply "neutralize" [.field "close", .apply "densify" [.field "industry"] none] none)
          ⟨0⟩).1
        = some (.swapField,
            .apply "neutralize" [.field "close", .apply "densify" [.field "sector"] none] none) := by
  refine ⟨by decide +kernel, by decide +kernel, ?_⟩
  rfl

end Mutation

end AlphaFoundry
