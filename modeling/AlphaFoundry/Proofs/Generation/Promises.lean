/-
# AlphaFoundry.Proofs.Generation.Promises -- what a plan promises of its candidates

A plan that is made promises as many candidates as were asked for.  The promise is kept wherever one
skeleton never fails; where each of them may run into a dead end, dry runs can miss what could be
built, and rounds can end without a candidate.  Basic skeletons have no dead ends.
-/
import Mathlib
import AlphaFoundry.Proofs.Generation.Turns

namespace AlphaFoundry

set_option autoImplicit false

/-! ## Plans -/

namespace Generation

variable {c : Catalog} {tier : String} {count : Float} {o : Options} {q : Batch}

/-- Where no skeleton can be built, a request is refused; it is refused, or candidates are missing,
only where every skeleton may fail. -/
theorem plan_promises (checked : check c tier count o = .ok q) :
    ((∀ s ∈ pool q.tier, s.plan.isBuildable c q.signal = false) →
      (plan c tier count o).result = .error (.request (.noSkeleton q.tier))) ∧
    (∀ fault, (plan c tier count o).result = .error fault →
      fault = .request (.noSkeleton q.tier) ∧
        ∀ s ∈ pool q.tier, s.plan.neverFails c q.signal = false) ∧
    (∀ p, (plan c tier count o).result = .ok p →
      (p.yield.fault = none ∧ p.yield.candidates.length = q.count) ∨
      (p.yield.fault = some (.unavailable
          ("|".intercalate (p.skeletons.map Skeleton.id)) (.everything q.signal)) ∧
        p.yield.candidates.length < q.count ∧
        ∀ s ∈ pool q.tier, s.plan.neverFails c q.signal = false)) ∧
    ((∃ s ∈ pool q.tier, s.plan.neverFails c q.signal = true) →
      ∃ p, (plan c tier count o).result = .ok p ∧
        p.yield.fault = none ∧ p.yield.candidates.length = q.count) := by
  obtain rfl := (planned_of_check checked).catalog
  obtain ⟨found, foreseen, result⟩ := plan_result checked
  have refused (none : found = []) :
      (plan q.catalog tier count o).result = .error (.request (.noSkeleton q.tier)) := by
    rw [result, if_pos none]
  have planned (some_skeleton : found ≠ []) :
      (plan q.catalog tier count o).result = .ok { q with skeletons := found } := by
    rw [result, if_neg some_skeleton]
  have yields := Batch.yield_ends (p := { q with skeletons := found }) foreseen
  have dead_ends (none : found = []) : ∀ s ∈ pool q.tier,
      s.plan.neverFails q.catalog q.signal = false := by
    intro s member
    by_contra never
    have listed := foreseen.sure s member (eq_true_of_ne_false never)
    rw [none] at listed
    cases listed
  refine ⟨fun unbuildable => refused ?_, fun fault ended => ?_, fun p ended => ?_, ?_⟩
  · refine List.eq_nil_iff_forall_not_mem.2 fun s listed => ?_
    have can := foreseen.can s listed
    rw [unbuildable s (foreseen.sublist.subset listed)] at can
    cases can
  · by_cases none : found = []
    · rw [refused none] at ended
      exact ⟨(Except.error.inj ended).symm, dead_ends none⟩
    · rw [planned none] at ended
      cases ended
  · by_cases none : found = []
    · rw [refused none] at ended
      cases ended
    · rw [planned none] at ended
      obtain rfl := Except.ok.inj ended
      exact yields
  · rintro ⟨s, member, never⟩
    have some_skeleton : found ≠ [] := List.ne_nil_of_mem (foreseen.sure s member never)
    exact ⟨_, planned some_skeleton,
      Batch.yield_complete (p := { q with skeletons := found }) foreseen member never⟩

theorem plan_promises_small : ∃ p, (plan Catalog.small "creative" 2 {}).result = .ok p ∧
    p.yield.fault = none ∧ p.yield.candidates.length = 2 := by
  have checked : check Catalog.small "creative" 2 {} = .ok ⟨Catalog.small, .creative, 2, 0, 3, {},
      signal Catalog.small, [], none⟩ :=
    check_eq_ok rfl (by decide +kernel) (by decide +kernel) (by decide +kernel) (by decide +kernel)
      rfl
  have never : ∃ s ∈ pool .creative,
      s.plan.neverFails Catalog.small (signal Catalog.small) = true := by
    decide +kernel
  exact (plan_promises checked).2.2.2 never

/-- A catalog with an operator for pairs, and two more that nothing feeds. -/
def clogged : Catalog :=
  ⟨{ domains := ["real", "sum", "odd"]
     fields := [⟨"close", "price", "real", none⟩, ⟨"volume", "volume", "real", none⟩]
     operators := [
      { id := "rank", category := .crossSectional, arity := .unary, inputs := [["real"]],
        output := "real", template := "rank(\x7b0\x7d)" },
      { id := "add", category := .arithmetic, arity := .binary, inputs := [["real"], ["real"]],
        output := "sum", template := "\x7b0\x7d + \x7b1\x7d" },
      { id := "mix", category := .arithmetic, arity := .binary, inputs := [["real"], ["odd"]],
        output := "sum", template := "mix(\x7b0\x7d, \x7b1\x7d)" },
      { id := "blend", category := .arithmetic, arity := .binary, inputs := [["real"], ["odd"]],
        output := "sum", template := "blend(\x7b0\x7d, \x7b1\x7d)" }] },
    by decide +kernel⟩

/-- There a pair can be built, but eight dry runs may miss it, and so may ten rounds behind dry runs
that did not. -/
theorem plan_breaks_promises :
    Skeleton.creatives.filterMap (fun s =>
      if s.plan.isBuildable clogged (signal clogged) then some s.id else none) = ["pair"] ∧
    (match (plan clogged "creative" 1 { seed := 16 }).result with
      | .error (.request fault) => some fault.message
      | _ => none) = some "No creative skeleton can be built from this catalog" ∧
    ((plan clogged "creative" 1 { seed := 33 }).result.toOption.map fun p =>
      (p.skeletons.map Skeleton.id, p.order, p.yield.fault.map Build.Fault.message))
      = some (["pair"], [], some "Skeleton \"pair\" unavailable: nothing produces real|sum|odd") := by
  decide +kernel

/-! ## Basic skeletons -/

/-- A basic skeleton has no dead ends. -/
theorem basics_provided : ∀ s ∈ Skeleton.basics, ∀ (demand : Demand) (target : List String),
    s.plan.provided c demand target = s.plan.isFed c target := by
  intro s member demand target
  obtain ⟨query, plan⟩ := Build.basics_plan s member
  rw [plan]
  rfl

/-- The basic tier keeps its promise: it is refused exactly if no basic skeleton has an operator that
fields can feed, and else all candidates come out, the first ones from different skeletons, and none
from the skeleton of the one before it, if there are two. -/
theorem plan_basic {n cap : ℕ} (counted : positive? count = some n)
    (capped : positive? o.maxFieldRepeats = some cap)
    (valid : LiteralRange.isValid o.literalRange = true) (whole : Number.isWhole o.seed = true) :
    let fed := Skeleton.basics.filter fun s => s.plan.isFed c (signal c)
    ((plan c "basic" count o).result = .error (.request (.noSkeleton .basic)) ↔ fed = []) ∧
    (fed ≠ [] → ∃ p, (plan c "basic" count o).result = .ok p ∧ p.skeletons = fed ∧
      p.yield.fault = none ∧ p.order.length = n ∧
      (p.order.take (min fed.length n)).Nodup ∧
      (2 ≤ fed.length → p.order.IsChain (· ≠ ·))) := by
  intro fed
  have checked : check c "basic" count o = .ok
      ⟨c, .basic, n, o.seed, cap, o.literalRange, signal c, [], none⟩ :=
    check_eq_ok rfl counted capped valid whole rfl
  obtain ⟨found, foreseen, result⟩ := plan_result checked
  have sure : ∀ s ∈ pool .basic, s.plan.isFed c (signal c) = true →
      s.plan.neverFails c (signal c) = true := by
    intro s member able
    rw [Plan.neverFails, basics_provided s member]
    exact able
  obtain rfl : found = fed := by
    refine foreseen.eq_filter (.of_map _ (pool_unique .basic)) (fun s member can => ?_) sure
    rw [← basics_provided s member .one]
    exact can
  have refused : (plan c "basic" count o).result = .error (.request (.noSkeleton .basic)) ↔
      fed = [] := by
    rw [result]
    split
    · rename_i none
      exact iff_of_true rfl none
    · rename_i some_fed
      exact iff_of_false nofun some_fed
  refine ⟨refused, fun some_fed => ?_⟩
  rw [if_neg some_fed] at result
  refine ⟨_, result, rfl, ?_⟩
  set p : Batch := ⟨c, .basic, n, o.seed, cap, o.literalRange, signal c, fed, none⟩
  have never : ∀ s ∈ p.skeletons, s.plan.neverFails p.catalog p.signal = true := by
    intro s listed
    obtain ⟨member, able⟩ := List.mem_filter.1 listed
    exact sure s member able
  have unique := foreseen.unique (t := .basic)
  obtain ⟨faultless, length⟩ : p.yield.fault = none ∧ p.yield.candidates.length = n := by
    obtain ⟨s, listed⟩ := List.exists_mem_of_ne_nil _ some_fed
    exact Batch.yield_complete foreseen (foreseen.sublist.subset listed) (never s listed)
  have length : p.order.length = n := by rw [Batch.order, List.length_map, length]
  have first : p.order.take (min fed.length n) = p.order.take p.skeletons.length := by
    rw [List.take_eq_take_iff, length, min_assoc, min_self]
  refine ⟨faultless, length, ?_, Batch.order_isChain_of_neverFails unique never⟩
  rw [first]
  exact (Batch.exhausts_of_neverFails unique never).nodup unique

theorem plan_basic_small : ∃ p, (plan Catalog.small "basic" 5 {}).result = .ok p ∧
    p.yield.fault = none ∧ p.order.length = 5 ∧ (p.order.take 2).Nodup ∧
      p.order.IsChain (· ≠ ·) := by
  have counted : positive? 5 = some 5 := by decide +kernel
  have capped : positive? ({} : Options).maxFieldRepeats = some 3 := by decide +kernel
  have two : (Skeleton.basics.filter fun s =>
      s.plan.isFed Catalog.small (signal Catalog.small)).length = 2 := by
    decide +kernel
  obtain ⟨-, kept⟩ := plan_basic (c := Catalog.small) counted capped (by decide +kernel)
    (by decide +kernel)
  obtain ⟨p, made, -, faultless, length, first, apart⟩ :=
    kept (List.ne_nil_of_length_pos (two ▸ Nat.two_pos))
  rw [two] at first
  exact ⟨p, made, faultless, length, first, apart two.ge⟩

end Generation

end AlphaFoundry
