/-
# AlphaFoundry.Proofs.Generation.Buildable -- what a catalog has for a plan

A plan can be built if operators can be chosen for its queries such that every target below them is
met.  A build, however, draws each operator among all that produce its target, whether or not the
catalog has something for their slots; so a plan never fails only if this holds whichever operators
are drawn.  Both readings are one recursion on the shape, and a build decides between them by the
same recursion.  For the plan of one operator they agree: that operator is drawn among those that
fields can feed.
-/
import Mathlib
import AlphaFoundry.Proofs.Generation.Ensures

namespace AlphaFoundry

set_option autoImplicit false

/-! ## Operators and fields for a target -/

namespace Catalog

variable (c : Catalog)

/-- There is a field for every slot of the operator. -/
def canFeed (op : Operator) : Bool :=
  op.inputs.all fun slot => !(c.fieldsByDomain slot).isEmpty

/-- An operator meets the query, produces a domain of the target and can be fed. -/
def feeds (q : Query) (target : List String) : Bool :=
  (c.compatible { q with output := some target }).any c.canFeed

end Catalog

/-- The plan of one operator on fields, if the catalog has such an operator. -/
def Plan.isFed (c : Catalog) (target : List String) : Plan → Bool
  | basic q => c.feeds q target
  | _ => false

/-- There is a basic skeleton for the target. -/
def Catalog.serves (c : Catalog) (target : List String) : Bool :=
  Skeleton.basics.any fun s => s.plan.isFed c target

/-! ## Shapes -/

/-- How many of the operators for a query are to have a property. -/
inductive Demand where
  | one
  /-- All, and there is one. -/
  | all

def Demand.holds (property : Operator → Bool) (ops : List Operator) : Demand → Bool
  | one => ops.any property
  | all => !ops.isEmpty && ops.all property

/-- The catalog has something for every part of the shape below one operator for each query, or
below all of them. -/
def Shape.provided (c : Catalog) (demand : Demand) : Shape → List String → Bool
  | sub, target => c.serves target
  | weight, target | complement, target => target.contains literalDomain
  | wrap q inner, target =>
    demand.holds (fun op => inner.provided c demand (op.slot 0))
      (c.compatible { q with output := some target })
  | join q left right, target =>
    demand.holds
      (fun op => left.provided c demand (op.slot 0) && right.provided c demand (op.slot 1))
      (c.compatible { q with output := some target })

namespace Plan

def provided (c : Catalog) (demand : Demand) (target : List String) : Plan → Bool
  | basic q => c.feeds q target
  | combined shape | blended shape => shape.provided c demand target

/-- Some choice of operators leads to a formula for the target. -/
def isBuildable (c : Catalog) (target : List String) (plan : Plan) : Bool :=
  plan.provided c .one target

/-- Every choice of operators does, and there is one. -/
def neverFails (c : Catalog) (target : List String) (plan : Plan) : Bool :=
  plan.provided c .all target

end Plan

namespace Demand

variable {property property' : Operator → Bool} {ops : List Operator} {op : Operator}

theorem one_holds (member : op ∈ ops) (has : property op = true) :
    Demand.one.holds property ops = true :=
  List.any_eq_true.2 ⟨op, member, has⟩

theorem all_fails (member : op ∈ ops) (lacks : property op = false) :
    Demand.all.holds property ops = false := by
  refine Bool.and_eq_false_iff.2 (.inr (List.all_eq_false.2 ⟨op, member, ?_⟩))
  rw [lacks]
  exact Bool.false_ne_true

theorem all_nil : Demand.all.holds property [] = false := rfl

end Demand

/-! ## Builds -/

namespace Build

variable {c : Catalog} {I : Bench → Prop} {target : List String}

section

variable (steady : Steady c I)
include steady

/-- One operator on fields is built exactly if there is one. -/
theorem basic_decides (id : String) (q : Catalog.Query) :
    Decides I (c.feeds q target = true) (c.feeds q target = false) (basic c id q target) := by
  unfold basic
  refine .after Keeps.get fun b holds => ?_
  have supply (slot : List String) :
      b.fields.canSupply slot = !(c.fieldsByDomain slot).isEmpty := by
    rw [FieldPicker.canSupply, steady.catalog b holds]
  have fed : (fun op : Operator => op.inputs.all b.fields.canSupply) = c.canFeed :=
    funext fun op => congrArg op.inputs.all (funext supply)
  dsimp only
  rw [fed]
  split
  · rename_i none
    refine .lacking id _ (List.any_eq_false.2 fun op member able => ?_)
    have chosen := List.mem_filter.2 ⟨member, able⟩
    rw [none] at chosen
    cases chosen
  · rename_i some_operator
    refine .after (steady.pick some_operator) fun op member => ?_
    obtain ⟨compatible, able⟩ := List.mem_filter.1 member
    have supplied : ∀ slot ∈ op.inputs, c.fieldsByDomain slot ≠ [] := by
      intro slot member
      simpa using List.all_eq_true.1 able slot member
    refine .after (steady.pickFields [] supplied) fun _ _ => ?_
    refine .after (steady.windowFor op) fun _ _ => .pure ?_
    exact List.any_eq_true.2 ⟨op, compatible, able⟩

omit steady in
theorem literal_decides (id : String) (value : Float) :
    Decides I (target.contains literalDomain = true) (target.contains literalDomain = false)
      (literal id value target) := by
  unfold literal
  split
  · exact .pure (by assumption)
  · exact .lacking id _ (Bool.not_eq_true _ ▸ by assumption)

/-- The recursion of a build is that of what is provided for its shape: a result comes from the
operators that were drawn, and a lack from one of those that may be. -/
theorem shape_decides (id : String) (weight : Float) {sub : List String → Build Expr}
    (subs : ∀ target, Decides I (c.serves target = true) (c.serves target = false) (sub target))
    (body : Shape) : ∀ target, Decides I (body.provided c .one target = true)
      (body.provided c .all target = false) (shape c id weight sub body target) := by
  induction body with
  | sub => exact subs
  | weight => exact fun target => literal_decides id weight
  | complement => exact fun target => literal_decides id _
  | wrap q inner ih =>
      intro target
      refine steady.pickOperator id (fun none => ?_) fun op member => ?_
      · rw [Shape.provided, none, Demand.all_nil]
      · refine (ih (op.slot 0)).bind (fun fails => Demand.all_fails member fails) fun built _ => ?_
        exact .after (steady.windowFor op) fun _ _ => .pure (Demand.one_holds member built)
  | join q left right ihl ihr =>
      intro target
      refine steady.pickOperator id (fun none => ?_) fun op member => ?_
      · rw [Shape.provided, none, Demand.all_nil]
      · refine (ihl (op.slot 0)).bind (fun fails => ?_) fun first _ => ?_
        · exact Demand.all_fails member (by rw [fails, Bool.false_and])
        refine (ihr (op.slot 1)).bind (fun fails => ?_) fun second _ => ?_
        · exact Demand.all_fails member (by rw [fails, Bool.and_false])
        refine .after (steady.windowFor op) fun _ _ => .pure ?_
        exact Demand.one_holds member (by rw [first, second, Bool.and_self])

theorem skeleton_decides (range : LiteralRange) {sub : List String → Build Expr}
    (subs : ∀ target, Decides I (c.serves target = true) (c.serves target = false) (sub target))
    (s : Skeleton) (target : List String) : Decides I (s.plan.isBuildable c target = true)
      (s.plan.neverFails c target = false) (skeleton c range sub s target) := by
  unfold skeleton
  cases s.plan with
  | basic q => exact basic_decides steady s.id q
  | combined body => exact shape_decides steady s.id 0 subs body target
  | blended body =>
      have weighed : Keeps I (fun _ => True) (blendWeight range) :=
        Keeps.bind (F := fun _ => True) (steady.draw fun _ => trivial) fun _ _ => .pure trivial
      exact .after weighed fun weight _ => shape_decides steady s.id weight subs body target

end

end Build

end AlphaFoundry
