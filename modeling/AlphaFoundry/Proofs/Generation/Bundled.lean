/-
# AlphaFoundry.Proofs.Generation.Bundled -- batches of the bundled catalog

Where a catalog supplies every skeleton, all dry runs succeed and no candidate fails, so a request in
order yields what it asked for.  As every slot accepts more fields than a formula references, no
field is referenced more often than the cap, however low it is, and every candidate is accepted.
The bundled catalog supplies every skeleton.
-/
import Mathlib
import AlphaFoundry.Catalog.Bundled
import AlphaFoundry.Proofs.Generation.Turns
import AlphaFoundry.Proofs.Generation.Wrapping
import AlphaFoundry.Proofs.Validation.Review

namespace AlphaFoundry

set_option autoImplicit false

open Build Generation

/-! ## Formulas within the cap -/

theorem Expr.capped_of_uses_le {e : Expr} {cap : Float} {n : ℕ}
    (whole : Number.toInt? cap = some (n : ℤ)) (within : ∀ id, e.uses id ≤ n) :
    e.outline.Capped cap := by
  intro id bound value
  obtain rfl := Option.some.inj ((Number.toInt?_eq_some.1 whole).symm.trans value)
  rw [← e.uses_eq_ncard id]
  exact_mod_cast within id

theorem Build.Fills.accepted {c : Catalog} {target : List String} {body : Shape} {e : Expr}
    (filled : Fills c target body e) (shallow : body.depth ≤ 5) (feeds : body.feeds = true)
    {cap : Float} (capped : e.outline.Capped cap) (tier : Tier) :
    (({ catalog := c, cap } : Validator).validateTree e tier).accepted = true :=
  e.survey_shows.accepted_iff.2
    { filled.wellBuilt shallow tier with used := filled.used feeds, capped }

theorem Generation.Wrapping.Sound.accepted {c : Catalog} {w : Wrapping} {body : Shape}
    {inner : Expr} (sound : w.Sound c) (filled : Fills c (signal c) body inner)
    (shallow : body.depth ≤ 5) (fits : w.neutralize.output ∈ w.normalize.slot 0) {cap : Float}
    (capped : (w.wrap inner).outline.Capped cap) :
    (({ catalog := c, cap } : Validator).validateTree (w.wrap inner) .optimize).accepted = true := by
  have usage := (w.wrap inner).visits_list.usageFindings_eq_nil.2
    ⟨⟨[0, 1], w.group, rfl⟩, capped⟩
  rw [Validator.validateTree, Validator.report_builtin, sound.findings_wrap filled shallow,
    if_pos fits, usage]
  rfl

/-! ## Planning -/

/-- A batch with skeletons, and a catalog that supplies every skeleton. -/
structure Batch.Supplied (p : Batch) (room : ℕ) : Prop where
  positive : 1 ≤ p.cap
  plans : ∀ sk ∈ Skeleton.all, sk.plan.suppliedBy p.catalog p.signal room = true
  known : ∀ sk ∈ p.skeletons, sk ∈ Skeleton.all
  some_skeleton : p.skeletons ≠ []

/-! ### Supplied plans never fail -/

section

variable {c : Catalog} {target : List String} {room : ℕ}

/-- Every slot of an operator that meets the query accepts some field. -/
theorem Plan.feeds_of_suppliedBy {q : Catalog.Query}
    (supplied : (basic q).suppliedBy c target room = true) : c.feeds q target = true := by
  obtain ⟨picks, supplied⟩ := Bool.and_eq_true_iff.1 supplied
  obtain ⟨nonempty, each⟩ := Bool.and_eq_true_iff.1 supplied
  obtain ⟨op, member⟩ := List.exists_mem_of_ne_nil _ (by simpa using nonempty)
  refine List.any_eq_true.2 ⟨op, member, List.all_eq_true.2 fun slot listed => ?_⟩
  have fits := List.all_eq_true.1 (List.all_eq_true.1 each op member) slot listed
  have two : 2 ≤ room := of_decide_eq_true picks
  have enough : room ≤ (c.fieldsByDomain slot).length :=
    of_decide_eq_true (Bool.and_eq_true_iff.1 fits).2
  simpa using List.ne_nil_of_length_pos (by omega)

/-- What the operators take is the target again, whichever of them are chosen. -/
theorem Shape.provided_of_suppliedBy (serves : c.serves target = true) : ∀ {body : Shape},
    body.suppliedBy c target = true → body.provided c .all target = true
  | sub, _ => serves
  | weight, supplied | complement, supplied => supplied
  | wrap q inner, supplied => by
      simp only [suppliedBy, Bool.and_eq_true, List.all_eq_true, decide_eq_true_eq] at supplied
      obtain ⟨⟨nonempty, slots⟩, below⟩ := supplied
      refine Bool.and_eq_true_iff.2 ⟨nonempty, List.all_eq_true.2 fun op member => ?_⟩
      rw [slots op member]
      exact provided_of_suppliedBy serves below
  | join q left right, supplied => by
      simp only [suppliedBy, Bool.and_eq_true, List.all_eq_true, decide_eq_true_eq] at supplied
      obtain ⟨⟨⟨nonempty, slots⟩, first⟩, second⟩ := supplied
      refine Bool.and_eq_true_iff.2 ⟨nonempty, List.all_eq_true.2 fun op member => ?_⟩
      rw [(slots op member).1, (slots op member).2]
      exact Bool.and_eq_true_iff.2
        ⟨provided_of_suppliedBy serves first, provided_of_suppliedBy serves second⟩

theorem Batch.Supplied.neverFails {p : Batch} (supplied : p.Supplied room) (sk : Skeleton)
    (known : sk ∈ Skeleton.all) : sk.plan.neverFails p.catalog p.signal = true := by
  have ranked : p.catalog.feeds Skeleton.crossSectional p.signal = true :=
    Plan.feeds_of_suppliedBy (supplied.plans _ (List.mem_cons_self (l := Skeleton.all.tail)))
  have serves : p.catalog.serves p.signal = true :=
    List.any_eq_true.2 ⟨_, List.mem_cons_self, ranked⟩
  have plan := supplied.plans sk known
  unfold Plan.neverFails
  cases body : sk.plan with
  | basic q =>
      rw [body] at plan
      exact Plan.feeds_of_suppliedBy plan
  | combined shape =>
      rw [body] at plan
      exact Shape.provided_of_suppliedBy serves (Bool.and_eq_true_iff.1 plan).2
  | blended shape =>
      rw [body] at plan
      exact Shape.provided_of_suppliedBy serves (Bool.and_eq_true_iff.1 plan).2

end

namespace Generation

variable {c : Catalog} {tier : String} {count : Float} {o : Options}

/-- Where every skeleton is supplied, the dry runs find all of them. -/
theorem plan_eq_ok {p : Batch} {room : ℕ} (checked : check c tier count o = .ok p)
    (supplied : Batch.Supplied { p with skeletons := pool p.tier } room) :
    (plan c tier count o).result = .ok { p with skeletons := pool p.tier } := by
  obtain ⟨found, foreseen, result⟩ := plan_result checked
  have all : found = (pool p.tier).filter fun _ => true := by
    refine foreseen.eq_filter (.of_map _ (pool_unique p.tier)) (fun _ _ _ => rfl) ?_
    exact fun s member _ => supplied.neverFails s (supplied.known s member)
  rw [List.filter_true] at all
  rw [result, all, if_neg supplied.some_skeleton]

end Generation

/-! ## Yielding -/

namespace Batch

variable {p : Batch} {room : ℕ}

namespace Supplied

/-- Turns are taken among the skeletons of the batch, and among the basic ones. -/
def stock (supplied : p.Supplied room) : Stock where
  catalog := p.catalog
  cap := p.cap
  target := p.signal
  room := room
  turns top sub :=
    top.ids = p.skeletons.map Skeleton.id ∧ sub.ids = Skeleton.basics.map Skeleton.id
  positive := supplied.positive
  supplied := supplied.plans

variable (supplied : p.Supplied room)

theorem bench_ready : Ready supplied.stock room p.bench :=
  ⟨⟨rfl, rfl⟩, rfl, rfl, room.zero_le, fun _ => p.cap.zero_le, by simp [bench]⟩

theorem buildInner_completes :
    Completes supplied.stock room room (fun _ => True) p.buildInner := by
  have top : p.topChooser.Serves supplied.stock p.skeletons :=
    Chooser.rotating_serves supplied.some_skeleton (fun b turns => turns.1)
      fun id b n ready => { ready with turns := ready.turns }
  have sub : subChooser.Serves supplied.stock Skeleton.basics :=
    Chooser.rotating_serves (by decide) (fun b turns => turns.2)
      fun id b n ready => { ready with turns := ready.turns }
  have fresh : Completes supplied.stock room 0 (fun _ => True)
      (modify fun b : Bench => { b with fields := { catalog := p.catalog, cap := p.cap } }) :=
    .modify fun b ready => ⟨ready.turns, rfl, rfl, le_rfl, fun _ => p.cap.zero_le, by simp⟩
  -- Whatever candidates before picked, this one starts with no picks and the whole room.
  refine fresh.bind fun _ _ => ?_
  have subs (n : ℕ) (enough : n + 2 ≤ room) :=
    subFormula_completes (s := supplied.stock) p.literalRange sub enough
  refine Chooser.build_completes top supplied.some_skeleton (fun sk member => ?_) p.signal
  exact .skeleton (s := supplied.stock) p.literalRange subs (supplied.known sk member)

theorem after_ready : ∀ i, Ready supplied.stock room (p.after i)
  | 0 => supplied.bench_ready
  | i + 1 => by
      obtain ⟨built, b, ended, -, ready⟩ := supplied.buildInner_completes _ (after_ready i)
      rw [after, ended]
      exact ready

variable {i : ℕ} {sk : Skeleton} {inner : Expr}

include supplied in
theorem uses_le (built : p.buildInner (p.after i) = .ok (sk, inner) (p.after (i + 1)))
    (id : String) : inner.uses id ≤ p.cap := by
  have referenced := (spread_iff.1 (buildInner_spread built).2).1 id
  have picked := (supplied.after_ready (i + 1)).capped id
  exact (Nat.le_add_left _ _).trans (referenced.trans picked)

include supplied in
/-- Fields outside the signal domains are not picked. -/
theorem uses_eq_zero (built : p.buildInner (p.after i) = .ok (sk, inner) (p.after (i + 1)))
    {f : Field} (known : p.catalog.field? f.id = some f) (outside : f.domain ∉ p.signal) :
    inner.uses f.id = 0 := by
  have referenced := (spread_iff.1 (buildInner_spread built).2).1 f.id
  have unpicked : (p.after (i + 1)).fields.timesPicked f.id = 0 := by
    refine List.countP_eq_zero.2 fun g picked same => outside ?_
    obtain ⟨listed, domain⟩ := List.mem_filter.1 ((supplied.after_ready (i + 1)).drawn g picked)
    have found : p.catalog.field? f.id = some g := Catalog.field?_eq_some.2 ⟨listed, by simpa using same⟩
    obtain rfl := Option.some.inj (known.symm.trans found)
    exact List.contains_iff_mem.1 domain
  omega

end Supplied

end Batch

namespace Generation

variable {c : Catalog} {tier : String} {count : Float} {o : Options} {p : Batch} {w : Wrapping}

/-- What is neutralized can be normalized, and a group is no signal. -/
structure Wrapping.Fits (w : Wrapping) : Prop where
  output : w.neutralize.output ∈ w.normalize.slot 0
  apart : ∀ d ∈ w.neutralize.slot 1, d ∉ w.neutralize.slot 0

theorem Planned.wrapping_sound (planned : Planned c tier count o p) (wrapped : p.wrapping = some w) :
    p.tier = .optimize ∧ w.Sound c := by
  have optimize : p.tier = .optimize := by
    by_contra other
    rw [planned.wrapping_eq_none other] at wrapped
    cases wrapped
  have found := planned.wrapping
  rw [optimize, wrapped] at found
  obtain ⟨_, same, sound, -⟩ := Wrapping.sound_of_wrappingFor found
  obtain rfl := Option.some.inj same
  exact ⟨optimize, sound⟩

end Generation

namespace Batch

variable {c : Catalog} {tier : String} {count : Float} {o : Options} {p : Batch} {k : Candidate}
  {room : ℕ}

theorem Supplied.candidate_uses_le (supplied : p.Supplied room)
    (planned : Planned c tier count o p) (fits : ∀ w, p.wrapping = some w → w.Fits) {i : ℕ}
    {sk : Skeleton} {inner : Expr}
    (built : p.buildInner (p.after i) = .ok (sk, inner) (p.after (i + 1))) (number : ℕ)
    (id : String) : (p.candidate number sk.id inner).root.uses id ≤ p.cap := by
  rw [candidate_uses]
  split
  swap
  · exact supplied.uses_le built id
  rename_i grouped
  -- The picker does not see the group, but the group is not picked either.
  obtain ⟨w, wrapped, rfl⟩ := Option.map_eq_some_iff.1 grouped
  obtain ⟨-, sound⟩ := planned.wrapping_sound wrapped
  obtain ⟨f, known, same, domain⟩ := sound.group
  have outside : f.domain ∉ p.signal := by
    rw [planned.signal, sound.signal_eq]
    exact (fits w wrapped).apart f.domain domain
  rw [← planned.catalog, ← same] at known
  rw [← same, supplied.uses_eq_zero built known outside]
  exact supplied.positive

theorem Supplied.accepted (supplied : p.Supplied room) (planned : Planned c tier count o p)
    (fits : ∀ w, p.wrapping = some w → w.Fits) (yielded : k ∈ p.yield.candidates) :
    ({ catalog := c, cap := o.maxFieldRepeats } : Validator).validate k = ⟨true, []⟩ := by
  obtain ⟨i, at_i⟩ := List.getElem?_of_mem yielded
  obtain ⟨sk, inner, built, rfl⟩ := getElem?_yieldFrom p.count 1 i 0 at_i
  rw [Nat.zero_add] at built
  have ends := buildInner_delivers planned.range supplied.known _ (supplied.after_ready i).catalog
  rw [built] at ends
  obtain ⟨⟨member, filled⟩, -⟩ := ends
  obtain ⟨-, feeds, shallow⟩ := Skeleton.all_fit sk (supplied.known sk member)
  have capped : (p.candidate (1 + i) sk.id inner).root.outline.Capped o.maxFieldRepeats :=
    Expr.capped_of_uses_le (positive?_eq_some.1 planned.cap).1
      (supplied.candidate_uses_le planned fits built (1 + i))
  rw [planned.catalog, planned.signal] at filled
  rw [← Validator.validate_accepted_iff]
  cases wrapped : p.wrapping with
  | none =>
      have root : (p.candidate (1 + i) sk.id inner).root = inner := by
        unfold candidate
        rw [wrapped]
      rw [Validator.validate, root]
      rw [root] at capped
      exact filled.accepted shallow feeds capped p.tier
  | some w =>
      obtain ⟨optimize, sound⟩ := planned.wrapping_sound wrapped
      have root : (p.candidate (1 + i) sk.id inner).root = w.wrap inner := by
        unfold candidate
        rw [wrapped]
      have tier : (p.candidate (1 + i) sk.id inner).tier = .optimize := optimize
      rw [Validator.validate, root, tier]
      rw [root] at capped
      exact sound.accepted filled shallow (fits w wrapped).output capped

end Batch

/-! ## Requests in order -/

namespace Batch

variable {c : Catalog} {tier : String} {count : Float} {o : Options} {p : Batch} {room : ℕ}

theorem pool_ne_nil (t : Tier) : pool t ≠ [] := by
  cases t <;> decide

/-- If the catalog supplies every skeleton and its wrapping operators fit, a request that passes the
checks gets what it asked for. -/
theorem yield_of_check (checked : check c tier count o = .ok p)
    (supplies : ∀ sk ∈ Skeleton.all, sk.plan.suppliedBy c (Generation.signal c) room = true)
    (fits : ∀ w : Wrapping, w.Sound c → w.Fits) :
    ∃ p', (plan c tier count o).result = .ok p' ∧ p'.yield.fault = none ∧
      p'.yield.candidates.length = p.count ∧ ∀ k ∈ p'.yield.candidates,
        ({ catalog := c, cap := o.maxFieldRepeats } : Validator).validate k = ⟨true, []⟩ := by
  have planned := planned_of_check checked
  have supplied : Supplied { p with skeletons := pool p.tier } room :=
    { positive := (positive?_eq_some.1 planned.cap).2
      plans := planned.catalog ▸ planned.signal ▸ supplies
      known := fun _ => Skeleton.mem_all_of_mem_pool
      some_skeleton := pool_ne_nil p.tier }
  have made := plan_eq_ok checked supplied
  have planned := planned_of_plan made
  obtain ⟨sk, member⟩ := List.exists_mem_of_ne_nil _ (pool_ne_nil p.tier)
  obtain ⟨faultless, length⟩ := yield_complete (foreseen_of_plan made).1 member
    (supplied.neverFails sk (Skeleton.mem_all_of_mem_pool member))
  refine ⟨_, made, faultless, length, fun k yielded => ?_⟩
  refine supplied.accepted planned (fun w wrapped => ?_) yielded
  exact fits w (planned.wrapping_sound wrapped).2

end Batch

/-! ## The bundled catalog -/

namespace Catalog.Bundled

/-- The fields to neutralize against. -/
def groups : List String := ["industry", "subindustry", "sector", "market"]

theorem supplies : ∀ sk ∈ Skeleton.all,
    sk.plan.suppliedBy catalog (signal catalog) 8 = true := by
  decide +kernel

theorem wrappingFor_eq_ok (t : Tier) {group : String} (grouped : t = .optimize → group ∈ groups) :
    ∃ wrapping, wrappingFor catalog t group = .ok wrapping := by
  have each : ∀ group ∈ groups,
      (wrappingFor catalog .optimize group).toOption.isSome = true := by decide +kernel
  cases t with
  | optimize =>
      obtain ⟨wrapping, found⟩ := Option.isSome_iff_exists.1 (each group (grouped rfl))
      exact ⟨wrapping, except_toOption_eq_some.1 found⟩
  | _ => exact ⟨none, rfl⟩

theorem fits_of_sound {w : Wrapping} (sound : w.Sound catalog) : w.Fits := by
  have neutralize : (catalog.operatorForRole .neutralize).map (fun op => (op.output, op.inputs))
      = some ("real", [numeric, ["categorical"]]) := by decide +kernel
  have normalize : (catalog.operatorForRole .normalize).map Operator.inputs = some [numeric] := by
    decide +kernel
  rw [sound.neutralize, Option.map_some, Option.some.injEq, Prod.mk.injEq] at neutralize
  rw [sound.normalize, Option.map_some, Option.some.injEq] at normalize
  constructor
  · rw [neutralize.1, Operator.slot, normalize]
    decide
  · rw [Operator.slot, Operator.slot, neutralize.2]
    decide

/-- Whatever is planned on the bundled catalog comes out complete, and each candidate is accepted
under the cap of the request. -/
theorem yield_of_plan {tier : String} {count : Float} {o : Options} {p : Batch}
    (made : (plan catalog tier count o).result = .ok p) : p.yield.fault = none ∧
      ∀ k ∈ p.yield.candidates,
        ({ catalog, cap := o.maxFieldRepeats } : Validator).validate k = ⟨true, []⟩ := by
  obtain ⟨q, checked, -⟩ := Logged.bind_result.1 made
  obtain ⟨p', remade, faultless, -, accepted⟩ := Batch.yield_of_check
    (Logged.mapError_result.1 checked) supplies fun w => fits_of_sound
  obtain rfl := Except.ok.inj (made.symm.trans remade)
  exact ⟨faultless, accepted⟩

end Catalog.Bundled

namespace Batch

/-- A request for formulas of the bundled catalog whose numbers and group are in order is planned.
Its batch yields as many candidates as were asked for, without a fault, and each of them is accepted
under the same cap. -/
theorem yield_bundled (t : Tier) {count : Float} {o : Options} {n cap : ℕ} {seed : ℤ}
    (counted : Number.toInt? count = some (n : ℤ)) (some_candidate : 1 ≤ n)
    (seeded : Number.toInt? o.seed = some seed)
    (whole : Number.toInt? o.maxFieldRepeats = some (cap : ℤ)) (positive : 1 ≤ cap)
    (above : 0 < o.literalRange.min) (ordered : o.literalRange.min ≤ o.literalRange.max)
    (proper : o.literalRange.max < 1)
    (grouped : t = .optimize → o.neutralization ∈ Catalog.Bundled.groups) :
    ∃ p, (plan Catalog.Bundled.catalog t.name count o).result = .ok p ∧
      p.yield.fault = none ∧ p.yield.candidates.length = n ∧
      ∀ k ∈ p.yield.candidates,
        ({ catalog := Catalog.Bundled.catalog, cap := o.maxFieldRepeats } : Validator).validate k
          = ⟨true, []⟩ := by
  have named : Tier.ofName? t.name = some t := by cases t <;> rfl
  have valid : LiteralRange.isValid o.literalRange = true := by
    simp only [LiteralRange.isValid, Bool.and_eq_true, decide_eq_true_eq]
    exact ⟨⟨above, ordered⟩, proper⟩
  have seeded : Number.isWhole o.seed = true := Option.isSome_iff_exists.2 ⟨seed, seeded⟩
  obtain ⟨wrapping, wrapped⟩ := Catalog.Bundled.wrappingFor_eq_ok t grouped
  have checked := check_eq_ok named (positive?_eq_some.2 ⟨counted, some_candidate⟩)
    (positive?_eq_some.2 ⟨whole, positive⟩) valid seeded wrapped
  exact yield_of_check checked Catalog.Bundled.supplies fun w => Catalog.Bundled.fits_of_sound

/-- Even if no field may be referenced twice. -/
theorem yield_bundled_once : ∃ p,
    (plan Catalog.Bundled.catalog "optimize" 3
      { seed := -7, neutralization := "market", maxFieldRepeats := 1 }).result = .ok p ∧
    p.yield.fault = none ∧ p.yield.candidates.length = 3 ∧
    ∀ k ∈ p.yield.candidates,
      ({ catalog := Catalog.Bundled.catalog, cap := 1 } : Validator).validate k = ⟨true, []⟩ := by
  have counted : Number.toInt? 3 = some (3 : ℕ) := by decide +kernel
  have seeded : Number.toInt? (-7) = some (-7) := by decide +kernel
  have whole : Number.toInt? 1 = some (1 : ℕ) := by decide +kernel
  exact yield_bundled .optimize
    (o := { seed := -7, neutralization := "market", maxFieldRepeats := 1 })
    counted (by decide) seeded whole le_rfl (by decide +kernel) (by decide +kernel)
    (by decide +kernel) fun _ => by decide

end Batch

end AlphaFoundry
