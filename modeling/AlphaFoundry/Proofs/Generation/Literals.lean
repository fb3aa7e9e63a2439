/-
# AlphaFoundry.Proofs.Generation.Literals -- the literals of generated formulas

The two weights of a blend are the only literals that builds write.  The first is drawn from a range
inside the unit interval and rounded to two places; the second is what the first leaves of one, and
rounded likewise.  So all literals of generated formulas are hundredths.
-/
import Mathlib
import AlphaFoundry.Proofs.Expr.Reading
import AlphaFoundry.Proofs.Generation.Batch

namespace AlphaFoundry

set_option autoImplicit false

open AlphaFoundry.Expr (TwoPlaced)

namespace Build

variable {c : Catalog} {range : LiteralRange}

theorem blendWeight_isHundredth (valid : Generation.LiteralRange.isValid range = true) :
    Delivers c Number.IsHundredth (blendWeight range) := by
  refine Delivers.bind (P := fun w => Number.IsHundredth (Number.roundPlaces 2 w))
    (.draw fun r => ?_) fun weight hundredth => .pure hundredth
  obtain ⟨a, b, low, high, positive, ordered, below⟩ := exists_values_of_isValid valid
  obtain ⟨w, value, least, most⟩ := uniform_between low high positive.le ordered r
  exact Number.isHundredth_roundPlaces value (positive.le.trans least) (most.trans below.le)

theorem shape_twoPlaced (id : String) {weight : Float} (hundredth : Number.IsHundredth weight)
    {sub : List String → Build Expr}
    (subs : ∀ target, Delivers c (Expr.All TwoPlaced) (sub target)) (body : Shape)
    (target : List String) : Delivers c (Expr.All TwoPlaced) (shape c id weight sub body target) :=
  (shape_follows id weight subs body target).mono fun _ follows =>
    follows.all (fun _ _ _ => trivial) hundredth hundredth.complement

theorem skeleton_twoPlaced (valid : Generation.LiteralRange.isValid range = true)
    {sub : List String → Build Expr}
    (subs : ∀ target, Delivers c (Expr.All TwoPlaced) (sub target)) {s : Skeleton}
    (fits : s.plan.fits = true) (target : List String) :
    Delivers c (Expr.All TwoPlaced) (skeleton c range sub s target) := by
  unfold skeleton
  cases plan : s.plan with
  | basic q =>
      rw [plan] at fits
      refine (basic_delivers s.id (by simpa [Plan.fits] using fits)).mono fun e filled => ?_
      refine (filled.bare rfl).mono fun n bare => ?_
      cases n with
      | literal value => exact bare.elim
      | _ => trivial
  | combined body =>
      -- No weight is drawn; the one that stands in for it is a hundredth as well.
      exact shape_twoPlaced s.id ⟨0, by norm_num, by decide +kernel⟩ subs body target
  | blended body =>
      refine (blendWeight_isHundredth valid).bind fun weight hundredth => ?_
      exact shape_twoPlaced s.id hundredth subs body target

theorem subFormula_twoPlaced (valid : Generation.LiteralRange.isValid range = true)
    {chooser : Chooser} (offers : chooser.Offers c Skeleton.basics) (target : List String) :
    Delivers c (Expr.All TwoPlaced) (subFormula c range chooser target) := by
  refine (Chooser.build_delivers (P := fun _ => Expr.All TwoPlaced) offers ?_ target).bind
    fun _ built => .pure built.2
  intro s member
  obtain ⟨fits, -⟩ := Skeleton.all_fit s (List.mem_append_left _ member)
  exact skeleton_twoPlaced valid (fun below => noSub_delivers below) fits target

end Build

/-! ## Candidates -/

namespace Batch

open Build Generation

variable {c : Catalog} {tier : String} {count : Float} {o : Options} {p : Batch} {k : Candidate}

theorem buildInner_twoPlaced (planned : Planned c tier count o p) :
    Delivers p.catalog (fun built => built.2.All TwoPlaced) p.buildInner := by
  refine Delivers.bind (P := fun _ => True) (.modify fun _ _ => rfl) fun _ _ => ?_
  refine (Chooser.build_delivers (P := fun _ => Expr.All TwoPlaced)
    (topChooser_offers p.catalog) ?_ p.signal).mono fun _ built => built.2
  intro s member
  obtain ⟨fits, -⟩ := Skeleton.all_fit s (Skeleton.mem_all_of_mem_pool (planned.skeletons s member))
  exact skeleton_twoPlaced planned.range
    (subFormula_twoPlaced planned.range (subChooser_offers p.catalog)) fits p.signal

/-- What the optimize tier puts around a formula holds no literal. -/
theorem twoPlaced_of_yield (planned : Planned c tier count o p) (yielded : k ∈ p.yield.candidates) :
    k.root.All TwoPlaced := by
  obtain ⟨number, ⟨s, inner⟩, placed, rfl⟩ :=
    mem_yieldFrom (buildInner_twoPlaced planned) p.count 1 p.bench rfl yielded
  unfold candidate
  dsimp only
  split
  · simpa [Wrapping.wrap, Expr.all_apply, Expr.all_field, TwoPlaced] using placed
  · exact placed

end Batch

end AlphaFoundry
