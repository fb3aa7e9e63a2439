/-
# AlphaFoundry.Proofs.Generation.Frame -- what builds leave alone

A build draws from the stream and picks fields.  What neither matters for stays as it is, whatever
comes of the build: a result, a lack or another fault (`Aside.skeleton`).  A chooser also takes
turns, in its own rotation and in no other.  So the builds that a rotation chooses between leave it
alone.
-/
import Mathlib
import AlphaFoundry.Proofs.Generation.Ensures

namespace AlphaFoundry

set_option autoImplicit false

namespace Build

variable {α β : Type} {I : Bench → Prop} {c : Catalog}

/-- Whatever comes of a build, the invariant is kept. -/
def Stays (I : Bench → Prop) (x : Build α) : Prop :=
  Ensures I (fun _ => I) (fun _ => I) x

namespace Stays

theorem pure (a : α) : Stays I (pure a) :=
  fun _ holds => holds

theorem throw (fault : Fault) : Stays I (throw fault : Build α) :=
  fun _ holds => holds

theorem bind {x : Build α} {f : α → Build β} (first : Stays I x) (rest : ∀ a, Stays I (f a)) :
    Stays I (x >>= f) :=
  Ensures.bind first rest

theorem get : Stays I get :=
  fun _ holds => holds

theorem attempt {x : Build α} (stays : Stays I x) : Stays I (attempt x) := by
  intro b holds
  have meets := stays b holds
  unfold Build.attempt
  cases result : x b with
  | ok a b' =>
      rw [result] at meets
      exact meets
  | error fault b' =>
      rw [result] at meets
      cases fault <;> exact meets

end Stays

theorem Decides.stays {can may : Prop} {x : Build α} (decides : Decides I can may x) : Stays I x :=
  Ensures.mono decides (fun _ _ holds => holds.2) fun _ _ holds => holds.2.2

/-- Neither the stream nor the fields matter for an invariant. -/
def Aside (I : Bench → Prop) : Prop :=
  ∀ b rng fields, I b → I { b with rng, fields }

namespace Aside

variable (aside : Aside I)
include aside

theorem draw (f : Rng → α × Rng) : Stays I (draw f) :=
  fun b holds => aside b _ b.fields holds

theorem pick (items : List α) : Stays I (pick items) := by
  refine (aside.draw _).bind fun chosen => ?_
  cases chosen with
  | none => exact .throw _
  | some a => exact .pure a

theorem pickField (slot avoid : List String) : Stays I (pickField slot avoid) := by
  intro b holds
  unfold Build.pickField
  split
  · exact aside b _ _ holds
  · exact aside b _ b.fields holds

theorem pickFields : ∀ (slots : List (List String)) (used : List String),
    Stays I (pickFields slots used)
  | [], _ => .pure _
  | slot :: slots, used =>
      (aside.pickField slot used).bind fun id => (pickFields slots (id :: used)).bind fun _ =>
        .pure _

theorem windowFor (op : Operator) : Stays I (windowFor op) := by
  unfold Build.windowFor
  split
  · exact .pure _
  · exact (aside.draw _).bind fun _ => .pure _

theorem pickOperator (id : String) (q : Catalog.Query) (target : List String) :
    Stays I (pickOperator c id q target) := by
  unfold Build.pickOperator
  split
  · exact .throw _
  · exact aside.pick _

theorem basic (id : String) (q : Catalog.Query) (target : List String) :
    Stays I (basic c id q target) := by
  refine Stays.get.bind fun b => ?_
  dsimp only
  split
  · exact .throw _
  · refine (aside.pick _).bind fun op => (aside.pickFields op.inputs []).bind fun children => ?_
    exact (aside.windowFor op).bind fun _ => .pure _

omit aside in
theorem literal (id : String) (value : Float) (slot : List String) :
    Stays I (literal id value slot) := by
  unfold Build.literal
  split
  · exact .pure _
  · exact .throw _

theorem shape (id : String) (weight : Float) {sub : List String → Build Expr}
    (subs : ∀ target, Stays I (sub target)) (body : Shape) :
    ∀ target, Stays I (shape c id weight sub body target) := by
  induction body with
  | sub => exact subs
  | weight => exact fun target => literal id weight target
  | complement => exact fun target => literal id _ target
  | wrap q inner ih =>
      intro target
      refine (aside.pickOperator id q target).bind fun op => (ih (op.slot 0)).bind fun child => ?_
      exact (aside.windowFor op).bind fun _ => .pure _
  | join q left right ihl ihr =>
      intro target
      refine (aside.pickOperator id q target).bind fun op => (ihl (op.slot 0)).bind fun first => ?_
      refine (ihr (op.slot 1)).bind fun second => (aside.windowFor op).bind fun _ => .pure _

/-- A build of a skeleton leaves alone what its sub-formulas do. -/
theorem skeleton (range : LiteralRange) {sub : List String → Build Expr}
    (subs : ∀ target, Stays I (sub target)) (s : Skeleton) (target : List String) :
    Stays I (skeleton c range sub s target) := by
  unfold Build.skeleton
  split
  · exact aside.basic s.id _ target
  · exact aside.shape s.id 0 subs _ target
  · exact Stays.bind ((aside.draw _).bind fun _ => .pure _) fun weight =>
      aside.shape s.id weight subs _ target

end Aside

/-! ## Choosers -/

namespace Chooser

/-- What a chooser does besides its builds leaves the invariant alone. -/
structure Leaves (chooser : Chooser) (I : Bench → Prop) : Prop where
  offer : ∀ failed, Stays I (chooser.offer failed)
  commit : ∀ s, Stays I (chooser.commit s)

/-- Turns are taken in the own rotation. -/
theorem rotating_leaves (aside : Aside I) (skeletons : List Skeleton)
    {rotation : Bench → Rotation ℚ} {put : Rotation ℚ → Bench → Bench}
    (keeps : ∀ rot b, I b → I (put rot b)) : (rotating skeletons rotation put).Leaves I where
  offer _ := Stays.get.bind fun _ => (aside.draw _).bind fun _ => .pure _
  commit _ := .modify fun b holds => keeps _ b holds

variable {chooser : Chooser} {make : Skeleton → Build Expr} (leaves : chooser.Leaves I)
  (makes : ∀ s, Stays I (make s))
include leaves makes

theorem round_stays : ∀ (n : ℕ) (failed : List String), Stays I (chooser.round make n failed)
  | 0, _ => .pure _
  | n + 1, failed => by
      refine (leaves.offer failed).bind fun offered => ?_
      cases offered with
      | none => exact .pure _
      | some s =>
          refine (makes s).attempt.bind fun result => ?_
          cases result with
          | none => exact round_stays n (s.id :: failed)
          | some e => exact (leaves.commit s).bind fun _ => .pure _

theorem rounds_stays (size : ℕ) : ∀ n : ℕ, Stays I (chooser.rounds make size n)
  | 0 => .pure _
  | n + 1 => by
      refine (round_stays leaves makes size []).bind fun built => ?_
      cases built with
      | none => exact rounds_stays size n
      | some built => exact .pure _

theorem build_stays (skeletons : List Skeleton) (target : List String) :
    Stays I (chooser.build skeletons make target) := by
  refine (rounds_stays leaves makes skeletons.length maxRounds).bind fun built => ?_
  cases built with
  | none => exact .throw _
  | some built => exact .pure _

end Chooser

/-- The basic skeletons leave alone what neither the stream nor the fields matter for. -/
theorem basicSkeleton_stays (aside : Aside I) (range : LiteralRange) (s : Skeleton)
    (target : List String) : Stays I (skeleton c range noSub s target) :=
  aside.skeleton range (fun _ => .throw _) s target

theorem subFormula_stays (aside : Aside I) (range : LiteralRange) {chooser : Chooser}
    (leaves : chooser.Leaves I) (target : List String) :
    Stays I (subFormula c range chooser target) :=
  Stays.bind (Chooser.build_stays leaves (fun s => basicSkeleton_stays aside range s target)
    Skeleton.basics target) fun _ => .pure _

end Build

end AlphaFoundry
