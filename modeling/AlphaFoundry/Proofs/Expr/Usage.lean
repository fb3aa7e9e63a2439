/-
# AlphaFoundry.Proofs.Expr.Usage -- how often a formula references a field

The rules count references in the list of visits.  Here they are counted along the formula: an
application references what its arguments reference.
-/
import Mathlib
import AlphaFoundry.Proofs.Validation.Conformance

namespace AlphaFoundry.Expr

set_option autoImplicit false

variable (id : String)

/-- The number of references to a field. -/
def uses (e : Expr) : Nat :=
  (Visit.fieldIds e.visits).count id

theorem fieldIds_field : Visit.fieldIds (field id).visits = [id] := by
  rw [visits, visitsFrom]
  rfl

theorem fieldIds_literal (value : Float) : Visit.fieldIds (literal value).visits = [] := by
  rw [visits, visitsFrom]
  rfl

theorem uses_field (other : String) : (field other).uses id = if other = id then 1 else 0 := by
  rw [uses, fieldIds_field]
  exact List.count_singleton.trans (if_congr (by simp) rfl rfl)

theorem uses_literal (value : Float) : (literal value).uses id = 0 := by
  rw [uses, fieldIds_literal]
  rfl

/-- The fields of an application are those of its arguments, one after the other. -/
theorem fieldIds_apply (operator : String) (es : List Expr) (window : Option Float) :
    Visit.fieldIds (apply operator es window).visits
      = es.flatMap fun e => Visit.fieldIds e.visits :=
  filterMap_visits_apply (fun _ _ _ => rfl) (fun v label => by simp [label]) es

theorem uses_apply (operator : String) (es : List Expr) (window : Option Float) :
    (apply operator es window).uses id = (es.map (uses id)).sum := by
  rw [uses, fieldIds_apply, List.count_flatMap]
  rfl

theorem uses_eq_ncard (e : Expr) : e.uses id = {p | e.outline p = some (.field id)}.ncard :=
  e.visits_list.count_fieldIds id

end AlphaFoundry.Expr
