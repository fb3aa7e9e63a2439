/-
# AlphaFoundry.Proofs.Generation.Batch -- the candidates of a batch

Every candidate that a batch yields is a formula that fills the shape of one of its skeletons for
the signal domains, below the wrapping if there is one.  Without a wrapping it is therefore well
built: all that a report can say against it is that it references a field too often.
-/
import Mathlib
import AlphaFoundry.Proofs.Generation.Chooser
import AlphaFoundry.Proofs.Generation.Plan

namespace AlphaFoundry

set_option autoImplicit false

/-! ## Skeletons by their ids -/

namespace Skeleton

/-- The depths of the formulas of creative skeletons. -/
def creativeDepths : List (String × Nat) :=
  [("pair", 3), ("ranked_pair", 4), ("smoothed_pair", 4), ("chain3", 4), ("balanced4", 4),
    ("weighted_blend", 4), ("ranked_chain3", 5)]

theorem mem_creativeDepths : ∀ s ∈ creatives, (s.id, s.plan.shape.depth) ∈ creativeDepths := by
  decide

theorem id_of_weighs : ∀ s ∈ all, s.plan.shape.weighs = true → s.id = "weighted_blend" := by
  decide

theorem mem_all_of_mem_pool {tier : Tier} {s : Skeleton} (member : s ∈ Generation.pool tier) :
    s ∈ all := by
  cases tier with
  | basic => exact List.mem_append_left _ member
  | creative => exact List.mem_append_right _ member
  | optimize => exact List.mem_append_right _ member

end Skeleton

/-! ## Filled shapes are well built -/

namespace Build.Fills

variable {c : Catalog} {target : List String} {body : Shape} {e : Expr}

theorem nodeCount_lt (filled : Fills c target body e) : e.nodeCount < 2 ^ body.depth :=
  e.nodeCount_lt filled.depth.le (filled.ordered.mono fun _ => Expr.children_le_two)

theorem wellBuilt (filled : Fills c target body e) (shallow : body.depth ≤ 5) (tier : Tier) :
    e.outline.WellBuilt c tier := by
  have size := filled.nodeCount_lt
  have : 2 ^ body.depth ≤ 2 ^ 5 := Nat.pow_le_pow_right (by norm_num) shallow
  refine Expr.wellBuilt_of_all filled.ordered filled.takes filled.plain ?_ (by omega)
  rw [filled.depth]
  omega

theorem used (filled : Fills c target body e) (feeds : body.feeds = true) :
    ∃ p id, e.outline p = some (.field id) := by
  obtain ⟨p, id, found⟩ := filled.fed feeds
  exact ⟨p, id, Expr.outline_eq_some.2 ⟨_, found, rfl⟩⟩

/-- Only repeated fields are reported of a filled shape. -/
theorem violations (filled : Fills c target body e) (shallow : body.depth ≤ 5)
    (feeds : body.feeds = true) {tier : Tier} {cap : Float} {v : Violation}
    (reported : v ∈ (({ catalog := c, cap } : Validator).validateTree e tier).violations) :
    ∃ id n, v = (Finding.repeatedField id n cap).violation := by
  have shows := e.survey_shows
  rw [Validator.validateTree, Validator.report_builtin] at reported
  obtain ⟨f, member, rfl⟩ := List.mem_map.1 reported
  rw [shows.findings_eq (filled.wellBuilt shallow tier),
    shows.listed.usageFindings_of_used (filled.used feeds)] at member
  obtain ⟨u, -, rfl⟩ := List.mem_map.1 member
  exact ⟨u.1, u.2, rfl⟩

end Build.Fills

/-! ## Candidates -/

namespace Batch

open Build Generation

variable {p : Batch} {k : Candidate}

theorem topChooser_offers (c : Catalog) : p.topChooser.Offers c p.skeletons :=
  Chooser.rotating_offers fun _ _ => rfl

theorem subChooser_offers (c : Catalog) : subChooser.Offers c Skeleton.basics :=
  Chooser.rotating_offers fun _ _ => rfl

theorem buildInner_delivers (valid : LiteralRange.isValid p.literalRange = true)
    (known : ∀ s ∈ p.skeletons, s ∈ Skeleton.all) :
    Delivers p.catalog (Chooser.IsBuilt p.skeletons
      fun s => Fills p.catalog p.signal s.plan.shape) p.buildInner := by
  refine Delivers.bind (P := fun _ => True) (.modify fun _ _ => rfl) fun _ _ => ?_
  have subs : ∀ target, Delivers p.catalog (Fills p.catalog target .sub)
      (subFormula p.catalog p.literalRange subChooser target) :=
    subFormula_delivers valid (subChooser_offers p.catalog)
  refine Chooser.build_delivers (topChooser_offers p.catalog) ?_ p.signal
  intro s member
  obtain ⟨fits, -⟩ := Skeleton.all_fit s (known s member)
  exact skeleton_delivers valid subs fits p.signal

/-- Every candidate is made of a formula that was built, whatever is known of those. -/
theorem mem_yieldFrom {P : Skeleton × Expr → Prop} (delivers : Delivers p.catalog P p.buildInner) :
    ∀ (n number : Nat) (b : Bench), b.fields.catalog = p.catalog →
      k ∈ (p.yieldFrom n number b).candidates →
        ∃ number built, P built ∧ k = p.candidate number built.1.id built.2 := by
  -- Of the bench that one candidate leaves to the next, only the catalog of the picker matters.
  intro n
  induction n with
  | zero =>
      intro number b _ yielded
      cases yielded
  | succ n ih =>
      intro number b same yielded
      have ends := delivers b same
      rw [yieldFrom] at yielded
      cases result : p.buildInner b with
      | error fault b' =>
          rw [result] at yielded
          cases yielded
      | ok built b' =>
          rw [result] at yielded ends
          obtain ⟨holds, same⟩ := ends
          rcases List.mem_cons.1 yielded with rfl | later
          · exact ⟨number, built, holds, rfl⟩
          · exact ih (number + 1) b' same later

variable {c : Catalog} {tier : String} {count : Float} {o : Options}

/-- The formula of a candidate fills the shape of its skeleton. -/
theorem mem_yield (planned : Planned c tier count o p) (yielded : k ∈ p.yield.candidates) :
    ∃ number s inner, s ∈ p.skeletons ∧ Fills c p.signal s.plan.shape inner ∧
      k = p.candidate number s.id inner := by
  have known : ∀ s ∈ p.skeletons, s ∈ Skeleton.all := fun s member =>
    Skeleton.mem_all_of_mem_pool (planned.skeletons s member)
  obtain ⟨number, ⟨s, inner⟩, ⟨member, filled⟩, rfl⟩ :=
    mem_yieldFrom (buildInner_delivers planned.range known) p.count 1 p.bench rfl yielded
  exact ⟨number, s, inner, member, planned.catalog ▸ filled, rfl⟩

/-- Without a fault, as many candidates come out as were asked for. -/
theorem yieldFrom_length : ∀ (n number : Nat) (b : Bench), (p.yieldFrom n number b).fault = none →
    (p.yieldFrom n number b).candidates.length = n
  | 0, _, _, _ => rfl
  | n + 1, number, b, faultless => by
      rw [yieldFrom] at faultless ⊢
      cases result : p.buildInner b with
      | error fault b' =>
          rw [result] at faultless
          cases faultless
      | ok built b' =>
          rw [result] at faultless
          exact congrArg Nat.succ (yieldFrom_length n (number + 1) b' faultless)

theorem exists_candidate (c : Catalog) (tier : String) (count : Float) (o : Options)
    (yields : ((plan c tier count o).result.toOption.map fun p => p.yield.candidates.length)
      = some 1) : ∃ p k, (plan c tier count o).result = .ok p ∧ k ∈ p.yield.candidates := by
  obtain ⟨p, planned, length⟩ := Option.map_eq_some_iff.1 yields
  obtain ⟨k, single⟩ := List.length_eq_one_iff.1 length
  refine ⟨p, k, except_toOption_eq_some.1 planned, ?_⟩
  rw [single]
  exact List.mem_singleton_self k

/-- Without the wrapping of the optimize tier, a candidate is wrong at most by repeating fields.
Its root produces a signal domain, no role is involved, its depth is that of its skeleton, and
literals occur in weighted blends alone. -/
theorem yield_unwrapped (made : (plan c tier count o).result = .ok p)
    (unwrapped : tier = "basic" ∨ tier = "creative") (yielded : k ∈ p.yield.candidates) :
    (∀ v ∈ (({ catalog := c, cap := o.maxFieldRepeats } : Validator).validate k).violations,
      ∃ id n, v = (Finding.repeatedField id n o.maxFieldRepeats).violation) ∧
    (∃ d ∈ p.signal, k.root.label.domain? c = some d) ∧
    (∀ path n, k.root.nodeAt? path = some n → n.label.role? c = none) ∧
    (tier = "basic" → k.root.depth = 2) ∧
    (tier = "creative" → (k.skeletonId, k.root.depth) ∈ Skeleton.creativeDepths) ∧
    ∀ path value, k.root.nodeAt? path = some (.literal value) → k.skeletonId = "weighted_blend" := by
  have planned := planned_of_plan made
  obtain ⟨number, s, inner, member, filled, rfl⟩ := mem_yield planned yielded
  have pooled := planned.skeletons s member
  have known := Skeleton.mem_all_of_mem_pool pooled
  obtain ⟨-, feeds, shallow⟩ := Skeleton.all_fit s known
  have bare : p.wrapping = none := by
    refine planned.wrapping_eq_none ?_
    rcases unwrapped with rfl | rfl
    · rw [planned.tier_eq (t := .basic) rfl]; decide
    · rw [planned.tier_eq (t := .creative) rfl]; decide
  have root : (p.candidate number s.id inner).root = inner := by
    unfold candidate
    rw [bare]
  rw [root]
  refine ⟨?_, filled.output, filled.plain, ?_, ?_, ?_⟩
  · intro v reported
    unfold Validator.validate at reported
    rw [root] at reported
    exact filled.violations shallow feeds reported
  · rintro rfl
    rw [planned.tier_eq (t := .basic) rfl] at pooled
    rw [filled.depth, basics_shape s pooled]
    rfl
  · rintro rfl
    rw [planned.tier_eq (t := .creative) rfl] at pooled
    rw [filled.depth]
    exact Skeleton.mem_creativeDepths s pooled
  · intro path value found
    refine Skeleton.id_of_weighs s known ?_
    by_contra unweighed
    exact filled.bare (by simpa using unweighed) path _ found

theorem yield_unwrapped_small : ∃ p k,
    (plan Catalog.small "creative" 1 {}).result = .ok p ∧ k ∈ p.yield.candidates ∧
      (∃ d ∈ p.signal, k.root.label.domain? Catalog.small = some d) ∧
      (k.skeletonId, k.root.depth) ∈ Skeleton.creativeDepths := by
  obtain ⟨p, k, made, yielded⟩ := exists_candidate Catalog.small "creative" 1 {} (by decide +kernel)
  have holds := yield_unwrapped made (.inr rfl) yielded
  exact ⟨p, k, made, yielded, holds.2.1, holds.2.2.2.2.1 rfl⟩

end Batch

end AlphaFoundry
