/-
# AlphaFoundry.Proofs.Generation.Wrapping -- formulas below a wrapping

The wrapping of the optimize tier is put around a formula that was built for the neutralizing
operator, and its group is a field that this operator accepts.  What the neutralizing operator
produces, however, is offered to the normalizing one unasked: this is the one argument of a wrapped
formula that may not fit, and the report says so exactly where it does not.
-/
import Mathlib
import AlphaFoundry.Proofs.Generation.Batch

namespace AlphaFoundry

set_option autoImplicit false

namespace Generation.Wrapping

open Build

/-! ## Wrappings of a catalog -/

/-- The operators of a wrapping are those of the two roles, and its group is a field that the
neutralizing one accepts. -/
structure Sound (c : Catalog) (w : Wrapping) : Prop where
  neutralize : c.operatorForRole .neutralize = some w.neutralize
  normalize : c.operatorForRole .normalize = some w.normalize
  group : ∃ f, c.field? w.group = some f ∧ f.id = w.group ∧ f.domain ∈ w.neutralize.slot 1

variable {c : Catalog} {w : Wrapping}

theorem groupFor_eq_ok {group id : String} {neutralize : Operator}
    (chosen : groupFor c group neutralize = .ok id) :
    id = group ∧ ∃ f, c.field? id = some f ∧ f.id = id ∧ f.domain ∈ neutralize.slot 1 := by
  unfold groupFor at chosen
  split at chosen
  · cases chosen
  · split at chosen
    · rename_i f known
      split at chosen
      · rename_i accepted
        obtain rfl := Except.ok.inj chosen
        have same := (Catalog.field?_eq_some.1 known).2
        exact ⟨same, f, by rw [← known, same], rfl, by simpa using accepted⟩
      · cases chosen
    · cases chosen

theorem sound_of_wrappingFor {group : String} {wrapping : Option Wrapping}
    (found : wrappingFor c .optimize group = .ok wrapping) :
    ∃ w, wrapping = some w ∧ w.Sound c ∧ w.group = group := by
  unfold wrappingFor at found
  dsimp only at found
  split at found
  · rename_i neutralize normalize held_neutralize held_normalize
    cases chosen : groupFor c group neutralize with
    | error fault => rw [chosen] at found; cases found
    | ok id =>
        rw [chosen] at found
        obtain rfl := Except.ok.inj found
        obtain ⟨same, accepted⟩ := groupFor_eq_ok chosen
        exact ⟨_, rfl, ⟨held_neutralize, held_normalize, accepted⟩, same⟩
  · cases found

namespace Sound

theorem neutralize_known (sound : w.Sound c) : c.operator? w.neutralize.id = some w.neutralize :=
  (Catalog.operatorForRole_eq_some sound.neutralize).1

theorem normalize_known (sound : w.Sound c) : c.operator? w.normalize.id = some w.normalize :=
  (Catalog.operatorForRole_eq_some sound.normalize).1

theorem neutralize_role (sound : w.Sound c) : c.roleOf w.neutralize.id = some .neutralize := by
  rw [Catalog.roleOf, sound.neutralize_known]
  exact (Catalog.operatorForRole_eq_some sound.neutralize).2

theorem normalize_role (sound : w.Sound c) : c.roleOf w.normalize.id = some .normalize := by
  rw [Catalog.roleOf, sound.normalize_known]
  exact (Catalog.operatorForRole_eq_some sound.normalize).2

theorem binary (sound : w.Sound c) : w.neutralize.arity = .binary :=
  (Catalog.operator?_sound sound.neutralize_known).neutralize
    (Catalog.operatorForRole_eq_some sound.neutralize).2

theorem unary (sound : w.Sound c) : w.normalize.arity = .unary :=
  (Catalog.operator?_sound sound.normalize_known).normalize
    (Catalog.operatorForRole_eq_some sound.normalize).2

theorem signal_eq (sound : w.Sound c) : signal c = w.neutralize.slot 0 := by
  unfold signal
  rw [sound.neutralize]

end Sound

/-! ## A wrapped formula, node by node -/

/-- The formula and the group below the neutralizing operator. -/
def neutralized (w : Wrapping) (inner : Expr) : Expr :=
  .apply w.neutralize.id [inner, .field w.group] none

theorem wrap_eq (w : Wrapping) (inner : Expr) :
    w.wrap inner = .apply w.normalize.id [w.neutralized inner] none := rfl

theorem measured (w : Wrapping) {target : List String} {body : Shape} {inner : Expr}
    (filled : Fills c target body inner) (shallow : body.depth ≤ 5) :
    (w.wrap inner).depth ≤ 8 ∧ (w.wrap inner).nodeCount ≤ 48 := by
  have size := filled.nodeCount_lt
  have : 2 ^ body.depth ≤ 2 ^ 5 := Nat.pow_le_pow_right (by norm_num) shallow
  have field_size : (Expr.field w.group).nodeCount = 1 := Expr.nodeCount_leaf rfl
  constructor
  · simp only [wrap, Expr.depth_apply, filled.depth, Expr.depth_field, List.map_cons, List.map_nil,
      List.foldr_cons, List.foldr_nil]
    omega
  · simp only [wrap, Expr.nodeCount_apply, field_size, List.map_cons, List.map_nil, List.sum_cons,
      List.sum_nil]
    omega

namespace Sound

variable {body : Shape} {inner : Expr}

theorem ordered (sound : w.Sound c) (inside : inner.All (Expr.InOrder c)) :
    (w.wrap inner).All (Expr.InOrder c) := by
  obtain ⟨f, known_group, -, -⟩ := sound.group
  have group : (Expr.field w.group).All (Expr.InOrder c) := Expr.all_field.2 ⟨f, known_group⟩
  have below : (w.neutralized inner).All (Expr.InOrder c) := by
    refine Expr.all_apply.2 ⟨⟨w.neutralize, sound.neutralize_known, ?_, ?_⟩, ?_⟩
    · rw [sound.binary]; rfl
    · exact Operator.windowFits_none (by rw [sound.binary]; decide)
    · simpa using ⟨inside, group⟩
  refine Expr.all_apply.2 ⟨⟨w.normalize, sound.normalize_known, ?_, ?_⟩, ?_⟩
  · rw [sound.unary]; rfl
  · exact Operator.windowFits_none (by rw [sound.unary]; decide)
  · exact List.forall_mem_singleton.2 below

/-- Below the root, every argument has a domain that is accepted. -/
theorem takes (sound : w.Sound c) (filled : Fills c (signal c) body inner) :
    (w.neutralized inner).All (Expr.Takes c) := by
  obtain ⟨f, known_group, -, domain⟩ := sound.group
  have group : (Expr.field w.group).All (Expr.Takes c) := Expr.all_field.2 trivial
  refine Expr.all_apply.2 ⟨?_, by simpa using ⟨filled.takes, group⟩⟩
  intro op found i child at_i
  obtain rfl := Option.some.inj (sound.neutralize_known.symm.trans found)
  obtain _ | _ | i := i
  · obtain rfl := Option.some.inj at_i
    obtain ⟨d, member, produced⟩ := filled.output
    exact ⟨d, produced, sound.signal_eq ▸ member⟩
  · obtain rfl := Option.some.inj at_i
    exact ⟨f.domain, by simp [Expr.label, Label.domain?, known_group], domain⟩
  · simp at at_i

/-- The wrapping operators stand where they may, and no other operator has a role. -/
theorem placed (sound : w.Sound c) (plain : inner.All (Expr.Plain c)) {p : Path} {n : Expr}
    {role : Role} (found : (w.wrap inner).nodeAt? p = some n) (held : n.label.role? c = some role) :
    (w.wrap inner).outline.Placed c p role := by
  match p with
  | [] => exact .inl rfl
  | [0] =>
      obtain rfl := Option.some.inj found
      obtain rfl := Option.some.inj (sound.neutralize_role.symm.trans held)
      exact .inr ⟨rfl, 0, w.normalize.id, none, rfl, rfl, sound.normalize_role⟩
  | 0 :: 0 :: q =>
      have unheld : n.label.role? c = none := plain q n found
      rw [unheld] at held
      cases held
  | 0 :: 1 :: [] =>
      obtain rfl := Option.some.inj found
      cases held
  | 0 :: 1 :: _ :: _ => cases found
  | 0 :: (_ + 2) :: _ => cases found
  | (_ + 1) :: _ => cases found

/-! ## What is reported of it -/

/-- Only the argument of the root may not fit. -/
theorem domainFindings_wrap (sound : w.Sound c) (filled : Fills c (signal c) body inner) :
    (w.wrap inner).visits.flatMap (Rules.domainFindings c)
      = if w.neutralize.output ∈ w.normalize.slot 0 then []
        else [.refusedDomain w.normalize 0 w.neutralize.output [0]] := by
  have visits : (w.wrap inner).visits
      = ⟨[], .apply w.normalize.id none, [(w.neutralized inner).label], none⟩
        :: Expr.visitsFrom [0] (some w.normalize.id) (w.neutralized inner) := by
    unfold Expr.visits
    rw [wrap_eq, Expr.visitsFrom, Expr.childVisits, Expr.childVisits, List.append_nil]
    rfl
  have slot : w.normalize.inputs[0]? = some (w.normalize.slot 0) := by
    have count := (Catalog.operator?_sound sound.normalize_known).slots
    rw [sound.unary] at count
    have count : w.normalize.inputs.length = 1 := count
    simp [Operator.slot, count]
  have produced : (w.neutralized inner).label.domain? c = some w.neutralize.output := by
    show (c.operator? w.neutralize.id).map Operator.output = _
    rw [sound.neutralize_known]
    rfl
  have below : (Expr.visitsFrom [0] (some w.normalize.id) (w.neutralized inner)).flatMap
      (Rules.domainFindings c) = [] := by
    rw [List.flatMap_eq_nil_iff]
    intro v member
    have sees := (w.wrap inner).visits_list.sees v (visits ▸ List.mem_cons_of_mem _ member)
    obtain ⟨q, n, found, rfl⟩ := Expr.mem_visitsFrom.1 member
    have found_below : (w.wrap inner).nodeAt? ([0] ++ q) = some n := found
    exact (domainFindings_eq_nil sees).2
      (Expr.argumentsFit_of_takes found_below (sound.takes filled q n found))
  rw [visits, List.flatMap_cons, below, List.append_nil,
    domainFindings_apply sound.normalize_known]
  show Rules.argumentFindings c w.normalize [] 0 (w.neutralized inner).label ++ [] = _
  rw [List.append_nil, Rules.argumentFindings, slot, produced]
  simp only [List.contains_iff_mem, List.nil_append]

theorem findings_wrap (sound : w.Sound c) (filled : Fills c (signal c) body inner)
    (shallow : body.depth ≤ 5) (cap : Float) :
    ({ catalog := c, cap } : Validator).findings .optimize (w.wrap inner).survey
      = (if w.neutralize.output ∈ w.normalize.slot 0 then []
          else [.refusedDomain w.normalize 0 w.neutralize.output [0]])
        ++ Rules.usageFindings cap (w.wrap inner).visits := by
  have shows := (w.wrap inner).survey_shows
  have ordered := sound.ordered filled.ordered
  obtain ⟨depth, size⟩ := measured w filled shallow
  have shape : RuleId.check c .optimize cap (w.wrap inner).survey .shape = [] := by
    refine shows.shape_iff.2 fun p l labelled => ?_
    obtain ⟨n, found, rfl⟩ := Expr.outline_eq_some.1 labelled
    exact Expr.nodeFits_of_inOrder found (ordered p n found)
  have limits : RuleId.check c .optimize cap (w.wrap inner).survey .limits = [] :=
    Expr.limitFindings_eq_nil depth size
  have placement : RuleId.check c .optimize cap (w.wrap inner).survey .placement = [] := by
    refine shows.placement_iff.2 fun _ p l labelled operator role applied held => ?_
    obtain ⟨n, found, rfl⟩ := Expr.outline_eq_some.1 labelled
    refine sound.placed filled.plain found ?_
    rw [Label.role?, applied]
    exact held
  have domain := sound.domainFindings_wrap filled
  simp only [Validator.findings, RuleId.all, List.flatMap_cons, List.flatMap_nil, shape, limits,
    placement, List.nil_append, List.append_nil]
  exact congrArg (· ++ Rules.usageFindings cap (w.wrap inner).visits) domain

theorem violations_wrap (sound : w.Sound c) (filled : Fills c (signal c) body inner)
    (shallow : body.depth ≤ 5) (cap : Float) :
    ((({ catalog := c, cap } : Validator).validateTree (w.wrap inner) .optimize).violations.filter
      fun v => v.ruleId ≠ .fieldUsage)
        = if w.neutralize.output ∈ w.normalize.slot 0 then []
          else [(Finding.refusedDomain w.normalize 0 w.neutralize.output [0]).violation] := by
  have usage : ((Rules.usageFindings cap (w.wrap inner).visits).map Finding.violation).filter
      (fun v => v.ruleId ≠ .fieldUsage) = [] := by
    rw [List.filter_eq_nil_iff]
    intro v reported
    obtain ⟨f, found, rfl⟩ := List.mem_map.1 reported
    simp [Finding.violation, Rules.rule_of_mem_usageFindings found]
  rw [Validator.validateTree, Validator.report_builtin]
  dsimp only
  rw [sound.findings_wrap filled shallow cap, List.map_append, List.filter_append, usage,
    List.append_nil]
  split
  · rfl
  · rfl

end Sound

end Generation.Wrapping

/-! ## The candidates of the optimize tier -/

namespace Batch

open Generation Build

variable {c : Catalog} {count : Float} {o : Options} {p : Batch} {k : Candidate}

/-- A candidate of the optimize tier is a formula below the wrapping of its catalog. -/
theorem exists_wrap (made : (plan c "optimize" count o).result = .ok p)
    (yielded : k ∈ p.yield.candidates) :
    ∃ w inner, Wrapping.Sound c w ∧ k.root = w.wrap inner ∧ k.neutralization = w.group := by
  have planned := planned_of_plan made
  obtain ⟨number, s, inner, -, -, rfl⟩ := mem_yield planned yielded
  have tier : p.tier = .optimize := planned.tier_eq rfl
  have wrapping := planned.wrapping
  rw [tier] at wrapping
  obtain ⟨w, wrapped, sound, -⟩ := Wrapping.sound_of_wrappingFor wrapping
  refine ⟨w, inner, sound, ?_, ?_⟩
  · unfold candidate
    rw [wrapped]
  · unfold candidate
    rw [wrapped]
    rfl

/-- A candidate of the optimize tier is a formula without roles, neutralized against the requested
group and normalized.  Apart from its field usage nothing is wrong with it, unless the normalizing
operator does not accept what the neutralizing one produces: then this, and only this, is. -/
theorem yield_wrapped (made : (plan c "optimize" count o).result = .ok p)
    (yielded : k ∈ p.yield.candidates) (cap : Float) :
    ∃ neutralize normalize inner,
      c.operatorForRole .neutralize = some neutralize ∧
      c.operatorForRole .normalize = some normalize ∧
      k.root = .apply normalize.id
        [.apply neutralize.id [inner, .field o.neutralization] none] none ∧
      k.neutralization = o.neutralization ∧ k.normalization = normalize.id ∧
      (∀ path n, inner.nodeAt? path = some n → n.label.role? c = none) ∧
      ((({ catalog := c, cap } : Validator).validate k).violations.filter
        fun v => v.ruleId ≠ .fieldUsage)
          = if neutralize.output ∈ normalize.slot 0 then []
            else [(Finding.refusedDomain normalize 0 neutralize.output [0]).violation] := by
  have planned := planned_of_plan made
  obtain ⟨number, s, inner, member, filled, rfl⟩ := mem_yield planned yielded
  obtain ⟨-, -, shallow⟩ :=
    Skeleton.all_fit s (Skeleton.mem_all_of_mem_pool (planned.skeletons s member))
  have tier : p.tier = .optimize := planned.tier_eq rfl
  have wrapping := planned.wrapping
  rw [tier] at wrapping
  obtain ⟨w, wrapped, sound, group⟩ := Wrapping.sound_of_wrappingFor wrapping
  rw [planned.signal] at filled
  have root : (p.candidate number s.id inner).root = w.wrap inner := by
    unfold candidate
    rw [wrapped]
  refine ⟨w.neutralize, w.normalize, inner, sound.neutralize, sound.normalize, ?_, ?_, ?_,
    filled.plain, ?_⟩
  · rw [root, ← group]
    rfl
  · show (p.wrapping.map Wrapping.group).getD "none" = _
    rw [wrapped, ← group]
    rfl
  · show (p.wrapping.map fun w => w.normalize.id).getD "none" = _
    rw [wrapped]
    rfl
  · have same : (p.candidate number s.id inner).tier = .optimize := tier
    rw [Validator.validate, root, same]
    exact sound.violations_wrap filled shallow cap

theorem yield_wrapped_small : ∃ p k,
    (plan Catalog.small "optimize" 1 {}).result = .ok p ∧ k ∈ p.yield.candidates ∧
      k.neutralization = "industry" ∧
      ((({ catalog := Catalog.small, cap := 3 } : Validator).validate k).violations.filter
        fun v => v.ruleId ≠ .fieldUsage) = [] := by
  obtain ⟨p, k, made, yielded⟩ := exists_candidate Catalog.small "optimize" 1 {} (by decide +kernel)
  obtain ⟨neutralize, normalize, inner, held_neutralize, held_normalize, -, group, -, -, report⟩ :=
    yield_wrapped made yielded 3
  have output : (Catalog.small.operatorForRole .neutralize).map Operator.output = some "real" := by
    decide +kernel
  have slot : (Catalog.small.operatorForRole .normalize).map (·.slot 0) = some ["real"] := by
    decide +kernel
  rw [held_neutralize, Option.map_some, Option.some.injEq] at output
  rw [held_normalize, Option.map_some, Option.some.injEq] at slot
  rw [output, slot, if_pos (by decide)] at report
  exact ⟨p, k, made, yielded, group, report⟩

/-- Where the wrapping operators do not fit, a candidate is refused for its domains. -/
theorem yield_wrapped_refusing :
    ((plan Catalog.smallRefusing "optimize" 1 {}).result.toOption.map fun p =>
      p.yield.candidates.map fun k =>
        (({ catalog := Catalog.smallRefusing } : Validator).validate k).violations.map
          Violation.ruleId) = some [[.domain]] := by
  decide +kernel

end Batch

end AlphaFoundry
