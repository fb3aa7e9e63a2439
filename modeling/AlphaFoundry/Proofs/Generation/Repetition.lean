/-
# AlphaFoundry.Proofs.Generation.Repetition -- when a candidate goes beyond the cap

The picker of a candidate prefers fields below the cap, but what it counts is not what the candidate
references.  It still counts the fields that abandoned attempts picked, and it knows nothing of the
group, which the wrapping adds.  `Attempts` accounts for all of its picks: each is in the formula,
or in a sub-formula that an abandoned attempt had finished.

So a field beyond the cap has a place where no field was left, once the picks of abandoned attempts
are counted as references, or it is the group and was at the cap before it was wrapped
(`yield_spread`).  Nothing is abandoned where the skeletons never fail.  Both exceptions occur:
`yield_crowded` is an abandoned attempt, `yield_crowded_group` the group.
-/
import Mathlib
import AlphaFoundry.Proofs.Generation.Abandoned
import AlphaFoundry.Proofs.Generation.Passes
import AlphaFoundry.Proofs.Generation.Turns

namespace AlphaFoundry

set_option autoImplicit false

/-- Below a path there is a place with the field, and every field that the place accepts is counted
at least so often. -/
def Expr.NoneLeft (c : Catalog) (least : ℕ) (times : String → ℕ) (above : Path) (id : String)
    (root : Expr) : Prop :=
  ∃ path operator children window op j,
    root.nodeAt? (above ++ path) = some (.apply operator children window) ∧
    children[j]? = some (.field id) ∧ c.operator? operator = some op ∧
    ∀ g ∈ c.fieldsByDomain (op.slot j), least ≤ times g.id

theorem Expr.NoneLeft.mono {c : Catalog} {least : ℕ} {times times' : String → ℕ} {above : Path}
    {id : String} {root : Expr} (left : root.NoneLeft c least times above id)
    (more : ∀ id, times id ≤ times' id) : root.NoneLeft c least times' above id := by
  obtain ⟨path, operator, children, window, op, j, found, at_j, known, all⟩ := left
  refine ⟨path, operator, children, window, op, j, found, at_j, known, fun g listed => ?_⟩
  exact (all g listed).trans (more g.id)

theorem Expr.NoneLeft.under {c : Catalog} {least : ℕ} {times : String → ℕ} {above : Path}
    {id : String} {inner root : Expr} (left : inner.NoneLeft c least times [] id)
    (found : ∀ path, root.nodeAt? (above ++ path) = inner.nodeAt? path) :
    root.NoneLeft c least times above id := by
  obtain ⟨path, operator, children, window, op, j, at_path, rest⟩ := left
  exact ⟨path, operator, children, window, op, j, (found path).trans at_path, rest⟩

namespace Build

/-! ## Picks along passes -/

section Picks

variable {chooser : Chooser} {make : Skeleton → Build Expr} {failed : List String}
  {b b' : Bench} {n : ℕ} {picks : Skeleton × Bench → List String} (quiet : chooser.Quiet)
  (records : ∀ s b o b', attempt (make s) b = .ok o b' → b.fields.Picked b'.fields (picks (s, b)))
include quiet records

/-- A pass picks what its attempts pick, one after the other. -/
theorem Pass.picked {tries : List (Skeleton × Bench)} {out : Outcome}
    (pass : Pass chooser make failed b tries out) :
    ∀ o b', out = .ok o b' → b.fields.Picked b'.fields (tries.flatMap picks) := by
  induction pass with
  | exhausted nothing =>
      rintro _ _ ⟨⟩
      rw [quiet.fields_of_offer nothing]
      exact .refl _
  | built offered build committed =>
      rintro _ _ ⟨⟩
      rw [quiet.fields_of_commit committed, ← quiet.fields_of_offer offered, List.flatMap_singleton]
      exact records _ _ _ _ (attempt_of_ok build)
  | lacking offered build rest ih =>
      intro o b' ended
      rw [← quiet.fields_of_offer offered, List.flatMap_cons]
      exact (records _ _ _ _ (attempt_of_lack build)).trans (ih o b' ended)
  | broken offered build foreign => rintro _ _ ⟨⟩

theorem Passes.picked {log : List (List (Skeleton × Bench))} {out : Outcome}
    (passes : Passes chooser make n b log out) :
    ∀ o b', out = .ok o b' → b.fields.Picked b'.fields (log.flatten.flatMap picks) := by
  induction passes with
  | spent =>
      rintro _ _ ⟨⟩
      exact .refl _
  | again pass rest ih =>
      intro o b' ended
      rw [List.flatten_cons, List.flatMap_append]
      exact (pass.picked quiet records _ _ rfl).trans (ih o b' ended)
  | built pass => simpa using pass.picked quiet records
  | broken pass => rintro _ _ ⟨⟩

end Picks

end Build

namespace Batch

open Build Generation

/-! ## Attempts at a candidate -/

section Attempts

variable (p : Batch)

/-- The sub-formulas that an attempt finishes, whatever comes of it. -/
def finishedIn (t : Skeleton × Bench) : List (Skeleton × Expr) :=
  match skeletonLog p.catalog (subBuild p.catalog p.literalRange) p.literalRange t.1 p.signal
      t.2 with
  | .ok (finished, _) _ => finished
  | .error _ _ => []

/-- The fields that an attempt picks: those of its formula or, if it is abandoned, of what it
finished. -/
def pickedIn (t : Skeleton × Bench) : List String :=
  match p.make t.1 t.2 with
  | .ok e _ => Visit.fieldIds e.visits
  | .error _ _ => fieldsOf (p.finishedIn t)

/-- The fields of all sub-formulas that were finished in attempts. -/
def leftBehind (attempts : List (Skeleton × Bench)) : List String :=
  attempts.flatMap fun t => fieldsOf (p.finishedIn t)

/-- A formula for a candidate was built behind attempts, at these skeletons on these benches, that
were all abandoned.  What the picker holds then are the fields that these attempts left behind and
those of the formula. -/
structure Attempts (b : Bench) (attempts : List (Skeleton × Bench)) (s : Skeleton) (inner : Expr)
    (b' : Bench) : Prop where
  built : p.buildInner b = .ok (s, inner) b'
  passes : ∃ log b₁, log.flatten = attempts ++ [(s, b₁)] ∧
    Passes p.topChooser p.make Chooser.maxRounds { b with fields := p.picker } log
      (.ok (some (s, inner)) b')
  abandoned : ∀ t ∈ attempts, t.1 ∈ p.skeletons ∧ Lacks p.make t
  picked : p.picker.Picked b'.fields (p.leftBehind attempts ++ Visit.fieldIds inner.visits)

end Attempts

variable {p : Batch} {b b' : Bench} {s : Skeleton} {inner : Expr} {history : List String}
  {attempts : List (Skeleton × Bench)}

theorem pickedIn_of_ok (built : p.make s b = .ok inner b') :
    p.pickedIn (s, b) = Visit.fieldIds inner.visits := by
  unfold pickedIn
  rw [built]

theorem pickedIn_of_lacks {t : Skeleton × Bench} (lacks : Lacks p.make t) :
    p.pickedIn t = fieldsOf (p.finishedIn t) := by
  obtain ⟨fault, b', failed, -⟩ := lacks
  unfold pickedIn
  rw [failed]

theorem make_picks (s : Skeleton) (b : Bench) (o : Option Expr) (b' : Bench)
    (tried : attempt (p.make s) b = .ok o b') : b.fields.Picked b'.fields (p.pickedIn (s, b)) := by
  obtain ⟨finished, logged, recorded⟩ := attempt_records p.literalRange tried
  have told : p.finishedIn (s, b) = finished := by
    unfold finishedIn
    rw [logged]
  rcases attempt_cases tried with ⟨e, rfl, built⟩ | ⟨rfl, fault, failed, lack⟩
  · rw [pickedIn_of_ok built]
    exact recorded.fields
  · have lacks : Lacks p.make (s, b) := ⟨fault, b', failed, lack⟩
    rw [pickedIn_of_lacks lacks, told]
    exact recorded.fields

/-- Whatever was abandoned on the way to a formula, there is an account of it. -/
theorem exists_attempts (unique : (p.skeletons.map Skeleton.id).Nodup) (turn : p.InTurn history b)
    (built : p.buildInner b = .ok (s, inner) b') :
    ∃ attempts, p.Attempts b attempts s inner b' := by
  have listed : ({ b with fields := p.picker } : Bench).top.Over p.skeletons := by
    intro id
    show id ∈ b.top.ids ↔ _
    rw [turn.top]
    rfl
  obtain ⟨log, out, told⟩ := topChooser_told unique listed
  obtain rfl := told.out_eq built
  obtain ⟨attempts, b₁, b₂, split, lacks, made, -⟩ := told.closes
  refine ⟨attempts, built, ⟨log, b₁, split, told.passes⟩, fun t tried => ⟨?_, lacks t tried⟩, ?_⟩
  · have logged : t ∈ log.flatten := split ▸ List.mem_append_left _ tried
    obtain ⟨tries, pass, tried⟩ := List.mem_flatten.1 logged
    exact (told.once tries pass).2 (List.mem_map_of_mem tried)
  · have picked := told.passes.picked topChooser_quiet make_picks _ _ rfl
    have left : attempts.flatMap p.pickedIn = p.leftBehind attempts :=
      List.flatMap_congr fun t tried => pickedIn_of_lacks (lacks t tried)
    rwa [split, List.flatMap_append, List.flatMap_singleton, pickedIn_of_ok made, left] at picked

namespace Attempts

/-- The picker counts the formula and what was left behind. -/
theorem timesPicked (tried : p.Attempts b attempts s inner b') (id : String) :
    b'.fields.timesPicked id = inner.uses id + (p.leftBehind attempts).count id := by
  rw [tried.picked.timesPicked_eq, List.count_append]
  show 0 + _ = _
  rw [Nat.zero_add, Nat.add_comm]
  rfl

/-- Nothing is abandoned if no skeleton may fail. -/
theorem eq_nil (unique : (p.skeletons.map Skeleton.id).Nodup) (turn : p.InTurn history b)
    (never : ∀ s ∈ p.skeletons, s.plan.neverFails p.catalog p.signal = true)
    (tried : p.Attempts b attempts s inner b') : attempts = [] := by
  obtain ⟨log, b₁, split, passes⟩ := tried.passes
  have makes : ∀ s ∈ p.skeletons, Stays (p.choice unique history).bench (p.make s) :=
    fun s _ => (skeleton_decides unique s).stays
  obtain ⟨⟨-, each⟩, -⟩ := passes.traced (choice_isMadeBy unique) makes ⟨rfl, turn.top, turn.sub⟩
  refine List.eq_nil_iff_forall_not_mem.2 fun t member => ?_
  have logged : t ∈ log.flatten := split ▸ List.mem_append_left _ member
  obtain ⟨tries, pass, member'⟩ := List.mem_flatten.1 logged
  obtain ⟨out, traced⟩ := each tries pass
  obtain ⟨listed, fault, b', failed, -⟩ := tried.abandoned t member
  have may := ((skeleton_decides unique t.1).of_error (traced.benches t member') failed).2.1
  rw [never t.1 listed] at may
  cases may

end Attempts

/-! ## The candidates of a batch -/

variable (p) in
/-- Where a candidate has the formula that was built for it. -/
def innerPath : Path :=
  if p.wrapping.isSome then [0, 0] else []

theorem candidate_nodeAt? (number : ℕ) (skeletonId : String) (inner : Expr) (path : Path) :
    (p.candidate number skeletonId inner).root.nodeAt? (p.innerPath ++ path)
      = inner.nodeAt? path := by
  unfold candidate innerPath
  cases p.wrapping <;> rfl

/-- In a formula, a field goes beyond the cap only where nothing was left, if what was abandoned
counts. -/
theorem Attempts.noneLeft (tried : p.Attempts b attempts s inner b') (positive : 0 < p.cap)
    {id : String} (beyond : p.cap < inner.uses id) :
    inner.NoneLeft p.catalog p.cap (fun id => inner.uses id + (p.leftBehind attempts).count id) []
      id := by
  obtain ⟨extended, spread⟩ := buildInner_spread tried.built
  have unpicked : p.picker.timesPicked id = 0 := rfl
  have spent := (spread_iff.1 spread).2 id (by omega) (by rw [unpicked, Nat.zero_add]; exact beyond)
  rcases spent.exists_place with
    rfl | ⟨path, operator, children, window, op, j, found, at_j, known, all⟩
  · rw [Expr.uses_field, if_pos rfl] at beyond
    omega
  · refine ⟨path, operator, children, window, op, j, found, at_j, known, fun g listed => ?_⟩
    show _ ≤ inner.uses g.id + _
    rw [← tried.timesPicked]
    exact extended.cap.ge.trans (all g listed)

/-- It is so in a candidate, unless the field is the group and the formula is at the cap. -/
theorem Attempts.group_or_noneLeft (tried : p.Attempts b attempts s inner b') (positive : 0 < p.cap)
    (number : ℕ) {id : String}
    (beyond : p.cap < (p.candidate number s.id inner).root.uses id) :
    (p.wrapping.map Wrapping.group = some id ∧ inner.uses id = p.cap) ∨
    (p.candidate number s.id inner).root.NoneLeft p.catalog p.cap
      (fun g => inner.uses g + (p.leftBehind attempts).count g) p.innerPath id := by
  rw [candidate_uses] at beyond
  by_cases inside : p.cap < inner.uses id
  · right
    exact (tried.noneLeft positive inside).under (candidate_nodeAt? number s.id inner)
  · -- What the formula does not have too often, the group adds.
    left
    split at beyond
    · exact ⟨‹_›, by omega⟩
    · omega

variable {c : Catalog} {tier : String} {count : Float} {o : Options} {k : Candidate} {cap i : ℕ}

/-- Where a candidate references a field more often than the cap, its formula has a place for that
field such that all fields that the place accepts are referenced as often as the cap allows, if what
abandoned attempts left behind counts as references; or the field is the group, and the formula
references it exactly as often as the cap allows.  Where it is not, and nothing was left behind, the
candidate references all these fields as often as that; and nothing is abandoned where no skeleton
may fail. -/
theorem yield_spread (made : (plan c tier count o).result = .ok p)
    (whole : Number.toInt? o.maxFieldRepeats = some (cap : ℤ))
    (yielded : p.yield.candidates[i]? = some k) :
    ∃ (s : Skeleton) (inner : Expr) (attempts : List (Skeleton × Bench)),
      p.Attempts (p.after i) attempts s inner (p.after (i + 1)) ∧
      (∀ path, k.root.nodeAt? (p.innerPath ++ path) = inner.nodeAt? path) ∧
      (∀ id, k.root.uses id
        = inner.uses id + if p.wrapping.map Wrapping.group = some id then 1 else 0) ∧
      (∀ id, cap < k.root.uses id →
        (p.wrapping.map Wrapping.group = some id ∧ inner.uses id = cap) ∨
        k.root.NoneLeft c cap (fun g => inner.uses g + (p.leftBehind attempts).count g)
          p.innerPath id) ∧
      ((∀ s ∈ p.skeletons, s.plan.neverFails c p.signal = true) → attempts = []) ∧
      (p.leftBehind attempts = [] → ∀ id, cap < k.root.uses id →
        (p.wrapping.map Wrapping.group = some id → inner.uses id ≠ cap) →
        k.root.NoneLeft c cap (fun g => k.root.uses g) p.innerPath id) := by
  have planned := planned_of_plan made
  have unique := (foreseen_of_plan made).1.unique
  obtain rfl := planned.catalog
  obtain ⟨sized, positive⟩ := positive?_eq_some.1 planned.cap
  obtain rfl : cap = p.cap := by
    rw [whole] at sized
    exact_mod_cast Option.some.inj sized
  have within : i < p.order.length := by
    rw [order, List.length_map]
    exact (List.getElem?_eq_some_iff.1 yielded).1
  have turn := after_inTurn unique i within.le
  obtain ⟨s, inner, built, rfl⟩ := getElem?_yieldFrom p.count 1 i 0 yielded
  rw [Nat.zero_add] at built
  obtain ⟨attempts, tried⟩ := exists_attempts unique turn built
  refine ⟨s, inner, attempts, tried, candidate_nodeAt? _ _ inner, candidate_uses _ _ inner,
    fun id => tried.group_or_noneLeft positive _, fun never => tried.eq_nil unique turn never, ?_⟩
  intro nothing id beyond apart
  rcases tried.group_or_noneLeft positive _ beyond with ⟨group, reached⟩ | left
  · exact absurd reached (apart group)
  · refine left.mono fun g => ?_
    rw [nothing, List.count_nil, Nat.add_zero, candidate_uses]
    exact Nat.le_add_right _ _

/-- Of a small catalog no skeleton fails, so there is no field left where one is used twice. -/
theorem yield_spread_small : ∃ p k,
    (plan Catalog.small "creative" 1 { maxFieldRepeats := 1 }).result = .ok p ∧
    p.yield.candidates[0]? = some k ∧ 1 < k.root.uses "volume" ∧
    k.root.NoneLeft Catalog.small 1 (fun g => k.root.uses g) p.innerPath "volume" := by
  have whole : Number.toInt? ({ maxFieldRepeats := 1 } : Options).maxFieldRepeats
      = some (1 : ℕ) := by decide +kernel
  have computed : ((plan Catalog.small "creative" 1 { maxFieldRepeats := 1 }).result.toOption.bind
      fun p => p.yield.candidates[0]?.map fun k =>
        (k.root.uses "volume", p.wrapping.map Wrapping.group,
          p.skeletons.all fun s => s.plan.neverFails Catalog.small p.signal))
      = some (2, none, true) := by
    decide +kernel
  obtain ⟨p, made, computed⟩ := Option.bind_eq_some_iff.1 computed
  obtain ⟨k, yielded, computed⟩ := Option.map_eq_some_iff.1 computed
  obtain ⟨twice, bare, never⟩ := by simpa using computed
  have made := except_toOption_eq_some.1 made
  obtain ⟨s, inner, attempts, -, -, -, -, sure, spread⟩ := yield_spread made whole yielded
  obtain rfl := sure never
  have beyond : 1 < k.root.uses "volume" := by omega
  exact ⟨p, k, made, yielded, beyond, spread rfl "volume" beyond (by simp [bare])⟩

/-- On `unfed` an attempt is abandoned that picked `close`, and then `volume` is referenced twice
although `close`, which every place of `volume` accepts, is not referenced at all. -/
theorem yield_crowded :
    ((plan unfed "creative" 1 { maxFieldRepeats := 1 }).result.toOption.bind fun p =>
      p.yield.candidates[0]?.map fun k =>
        (k.root.uses "volume", k.root.uses "close",
          k.root.visits.filterMap fun v =>
            if v.label.refersTo "volume" then
              (v.parent.bind unfed.operator?).map fun op =>
                (unfed.fieldsByDomain (op.slot v.position)).map Field.id
            else none))
      = some (2, 0, [["close", "volume"], ["close", "volume"]]) := by
  decide +kernel

/-- A catalog with an operator that makes a signal of a group. -/
def sized : Catalog :=
  ⟨{ domains := ["real", "group"]
     fields := [⟨"close", "price", "real", none⟩, ⟨"industry", "group", "group", none⟩,
      ⟨"sector", "group", "group", none⟩]
     operators := [
      { id := "rank", category := .crossSectional, arity := .unary, inputs := [["real"]],
        output := "real", template := "rank(\x7b0\x7d)" },
      { id := "size", category := .transform, arity := .unary, inputs := [["group"]],
        output := "real", template := "size(\x7b0\x7d)" },
      { id := "add", category := .arithmetic, arity := .binary, inputs := [["real"], ["real"]],
        output := "real", template := "\x7b0\x7d + \x7b1\x7d" },
      { id := "neutralize", category := .group, arity := .binary, inputs := [["real"], ["group"]],
        output := "real", template := "neutralize(\x7b0\x7d, \x7b1\x7d)",
        role := some .neutralize },
      { id := "normalize", category := .crossSectional, arity := .unary, inputs := [["real"]],
        output := "real", template := "normalize(\x7b0\x7d)", role := some .normalize }] },
    by decide +kernel⟩

/-- There no skeleton fails, and `industry` is referenced by `size`, where `sector` would do, and
once more as the group. -/
theorem yield_crowded_group :
    ((plan sized "optimize" 1 { maxFieldRepeats := 1 }).result.toOption.bind fun p =>
      p.yield.candidates[0]?.map fun k =>
        (p.skeletons.all fun s => s.plan.neverFails sized p.signal,
          k.root.uses "industry", k.root.uses "sector",
          k.root.visits.filterMap fun v =>
            if v.label.refersTo "industry" then
              (v.parent.bind sized.operator?).map fun op =>
                op.id :: (sized.fieldsByDomain (op.slot v.position)).map Field.id
            else none))
      = some (true, 2, 0,
          [["size", "industry", "sector"], ["neutralize", "industry", "sector"]]) := by
  decide +kernel

end Batch

end AlphaFoundry
