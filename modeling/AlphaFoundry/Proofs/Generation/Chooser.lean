/-
# AlphaFoundry.Proofs.Generation.Chooser -- skeletons in turn, until one is built

A chooser offers skeletons of a list and nothing else, by weight or in turns.  Trying what it offers
delivers one of them together with what was built of it, whatever failed before: the induction is on
the skeletons left in a round, and on the rounds left.
-/
import Mathlib
import AlphaFoundry.Proofs.Generation.Shape

namespace AlphaFoundry

set_option autoImplicit false

namespace Build

namespace Chooser

/-- What is offered is one of the skeletons, and the bench keeps its catalog. -/
structure Offers (chooser : Chooser) (c : Catalog) (skeletons : List Skeleton) : Prop where
  offer : ∀ failed, Delivers c (fun o => ∀ s ∈ o, s ∈ skeletons) (chooser.offer failed)
  commit : ∀ s, Delivers c (fun _ => True) (chooser.commit s)

variable {c : Catalog} {skeletons : List Skeleton}

theorem rotating_offers {rotation : Bench → Rotation Rat} {put : Rotation Rat → Bench → Bench}
    (keeps : ∀ rot b, (put rot b).fields = b.fields) :
    (rotating skeletons rotation put).Offers c skeletons where
  offer failed := by
    refine Delivers.get.bind fun b _ => ?_
    refine Delivers.bind (P := fun _ => True) (.draw fun _ => trivial) fun id _ => .pure ?_
    intro s offered
    obtain ⟨id, -, found⟩ := Option.bind_eq_some_iff.1 offered
    exact List.mem_of_find?_eq_some found
  commit s := .modify fun b same => by rw [keeps, same]

theorem weighted_offers (skeletons : List Skeleton) : (weighted skeletons).Offers c skeletons where
  offer failed := by
    refine iteInduction (fun _ => .pure (by simp)) fun _ => .draw fun r s offered => ?_
    exact List.mem_of_mem_filter (List.mem_of_getElem? offered)
  commit _ := .pure trivial

variable {chooser : Chooser} {P : Skeleton → Expr → Prop} {make : Skeleton → Build Expr}

/-- One of the skeletons, with a formula that has the property of its formulas. -/
def IsBuilt (skeletons : List Skeleton) (P : Skeleton → Expr → Prop) (built : Skeleton × Expr) :
    Prop :=
  built.1 ∈ skeletons ∧ P built.1 built.2

theorem round_delivers (offers : chooser.Offers c skeletons)
    (makes : ∀ s ∈ skeletons, Delivers c (P s) (make s)) : ∀ (n : Nat) (failed : List String),
      Delivers c (fun o => ∀ built ∈ o, IsBuilt skeletons P built)
        (chooser.round make n failed) := by
  intro n
  induction n with
  | zero => exact fun failed => .pure (by simp)
  | succ n ih =>
      intro failed
      refine (offers.offer failed).bind fun offered listed => ?_
      cases offered with
      | none => exact .pure (by simp)
      | some s =>
          have member := listed s rfl
          refine (makes s member).attempt.bind fun result holds => ?_
          cases result with
          | none => exact ih (s.id :: failed)
          | some e =>
              refine (offers.commit s).bind fun _ _ => .pure ?_
              rintro _ ⟨⟩
              exact ⟨member, holds e rfl⟩

theorem rounds_delivers (offers : chooser.Offers c skeletons)
    (makes : ∀ s ∈ skeletons, Delivers c (P s) (make s)) (size : Nat) : ∀ n : Nat,
      Delivers c (fun o => ∀ built ∈ o, IsBuilt skeletons P built)
        (chooser.rounds make size n) := by
  intro n
  induction n with
  | zero => exact .pure (by simp)
  | succ n ih =>
      refine (round_delivers offers makes size []).bind fun result built => ?_
      cases result with
      | none => exact ih
      | some pair => exact .pure built

/-- A skeleton that a chooser offers is built, or everything is lacking. -/
theorem build_delivers (offers : chooser.Offers c skeletons)
    (makes : ∀ s ∈ skeletons, Delivers c (P s) (make s)) (target : List String) :
    Delivers c (IsBuilt skeletons P) (chooser.build skeletons make target) := by
  refine (rounds_delivers offers makes skeletons.length maxRounds).bind fun result built => ?_
  cases result with
  | none => exact .lacking _ _
  | some pair => exact .pure (built pair rfl)

end Chooser

variable {c : Catalog} {range : LiteralRange} {chooser : Chooser}

theorem noSub_delivers {P : Expr → Prop} (target : List String) : Delivers c P (noSub target) :=
  .lacking _ _

theorem basics_shape : ∀ s ∈ Skeleton.basics, s.plan.shape = .sub := by
  intro s member
  fin_cases member <;> rfl

theorem basics_deliver (valid : Generation.LiteralRange.isValid range = true)
    (target : List String) : ∀ s ∈ Skeleton.basics,
      Delivers c (Fills c target .sub) (skeleton c range noSub s target) := by
  intro s member
  obtain ⟨fits, -⟩ := Skeleton.all_fit s (List.mem_append_left _ member)
  rw [← basics_shape s member]
  exact skeleton_delivers valid (fun below => noSub_delivers below) fits target

theorem subFormula_delivers (valid : Generation.LiteralRange.isValid range = true)
    (offers : chooser.Offers c Skeleton.basics) (target : List String) :
    Delivers c (Fills c target .sub) (subFormula c range chooser target) :=
  (Chooser.build_delivers (P := fun _ => Fills c target .sub) offers
    (basics_deliver valid target) target).bind fun _ filled => .pure filled.2

end Build

end AlphaFoundry
