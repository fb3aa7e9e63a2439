/-
# AlphaFoundry.Proofs.Generation.Commits -- picks and commits in any order

The history of a rotation is what was committed, whatever was picked in between.  So what a pick
answers can be told from the commits before it (`pick_answers`).  A strict rotation keeps its
promises by leaving ids out; a soft one only by weight, since the last id has the age 0 and is drawn
only where nothing has a weight.
-/
import Mathlib
import AlphaFoundry.Proofs.Generation.Rotation
import AlphaFoundry.Proofs.Rng.Weighted

namespace AlphaFoundry

set_option autoImplicit false

namespace Rotation

/-! ## Ages -/

section Age

variable {α : Type} {rot : Rotation α} {id : String}

theorem age_eq_zero_iff : rot.age id = 0 ↔ rot.history.head? = some id := by
  unfold age
  cases history : rot.history with
  | nil => simp
  | cons last earlier =>
      rw [List.idxOf?_cons, List.head?_cons]
      by_cases same : last = id
      · simp [same]
      · have other : (last == id) = false := by simpa using same
        cases earlier.idxOf? id <;> simp [same, other]

end Age

/-! ## One pick -/

section Pick

variable {rot : Rotation ℚ} {exclude : List String} {r : Rng} {id : String}

theorem mem_eligible_of_pick? (picked : (rot.pick? exclude r).1 = some id) :
    id ∈ rot.eligible exclude :=
  (rot.pick?_spec exclude r).1 id picked

theorem pick?_eq_none_iff :
    (rot.pick? exclude r).1 = none ↔ ∀ id ∈ rot.ids, id ∈ exclude := by
  refine ⟨(rot.pick?_spec exclude r).2, fun excluded => ?_⟩
  rw [pick?, if_pos (by rw [eligible_eq_nil.2 excluded]; rfl)]

/-- As long as an eligible id has a positive weight and was not committed last, the last one is not
drawn. -/
theorem ne_last_of_pick? {other : String} (eligible : other ∈ rot.eligible exclude)
    (positive : 0 < rot.weight other) (aged : rot.history.head? ≠ some other)
    (picked : (rot.pick? exclude r).1 = some id) : rot.history.head? ≠ some id := by
  have nonempty : (rot.eligible exclude).isEmpty = false := by
    rw [List.isEmpty_eq_false_iff]
    exact List.ne_nil_of_mem eligible
  have weight (id : String) : Scale.mul (rot.weight id) (Scale.ofNat (rot.age id))
      = rot.weight id * (rot.age id : ℚ) := rfl
  have age : 0 < rot.age other := Nat.pos_of_ne_zero fun zero => aged (age_eq_zero_iff.1 zero)
  rw [pick?, if_neg (by rw [nonempty]; exact Bool.false_ne_true)] at picked
  have drawn := Rng.weight_pos_of_pickWeighted? eligible
    (by rw [weight]; exact mul_pos positive (by exact_mod_cast age)) picked
  intro last
  rw [weight, age_eq_zero_iff.2 last, Nat.cast_zero, mul_zero] at drawn
  exact lt_irrefl 0 drawn

/-- The last id comes again only if all others are excluded, in a strict rotation and in a soft
one. -/
theorem pick?_last (positive : ∀ id ∈ rot.ids, 0 < rot.weight id)
    (picked : (rot.pick? exclude r).1 = some id) (last : rot.history.head? = some id)
    {other : String} (listed : other ∈ rot.ids) (left : other ∉ exclude) : other = id := by
  by_contra different
  cases mode : rot.strict with
  | true =>
      obtain ⟨-, -, alone⟩ := (mem_eligible mode).1 (mem_eligible_of_pick? picked)
      exact left (alone last other listed different)
  | false =>
      have eligible : other ∈ rot.eligible exclude := by
        simp [Rotation.eligible, mode, listed, left]
      refine ne_last_of_pick? eligible (positive other listed) (fun same => ?_) picked last
      exact different (Option.some.inj (same.symm.trans last))

end Pick

/-! ## Any sequence of picks and commits -/

/-- What is done with a rotation. -/
inductive Deed where
  | commit (id : String)
  | pick (exclude : List String)

/-- The rotation and the stream behind a deed. -/
def step {α : Type} [Scale α] (s : Rotation α × Rng) : Deed → Rotation α × Rng
  | .commit id => (s.1.commit id, s.2)
  | .pick exclude => (s.1, (s.1.pick? exclude s.2).2)

/-- The rotation and the stream behind some deeds, one after the other. -/
def after {α : Type} [Scale α] (s : Rotation α × Rng) (deeds : List Deed) : Rotation α × Rng :=
  deeds.foldl step s

/-- The ids that some deeds commit, the latest first. -/
def committed (deeds : List Deed) : List String :=
  (deeds.filterMap fun
    | .commit id => some id
    | .pick _ => none).reverse

section After

theorem committed_cons (deed : Deed) (deeds : List Deed) :
    committed (deed :: deeds) = committed deeds ++ committed [deed] := by
  cases deed <;> simp [committed]

variable {α : Type} [Scale α] (rot : Rotation α) (r : Rng)

theorem step_fst (deed : Deed) :
    (step (rot, r) deed).1 = { rot with history := committed [deed] ++ rot.history } := by
  cases deed <;> rfl

/-- Deeds change nothing of a rotation but its history, and add to it what they commit. -/
theorem after_fst (deeds : List Deed) :
    (after (rot, r) deeds).1 = { rot with history := committed deeds ++ rot.history } := by
  induction deeds generalizing rot r with
  | nil => rfl
  | cons deed deeds ih =>
      show (after ((step (rot, r) deed).1, (step (rot, r) deed).2) deeds).1 = _
      rw [ih, step_fst, committed_cons deed deeds, List.append_assoc]

end After

/-- What a pick may answer behind some commits, the latest first. -/
structure Answers (ids : List String) (strict : Bool) (earlier exclude : List String)
    (answer : Option String) : Prop where
  nothing : answer = none ↔ ∀ id ∈ ids, id ∈ exclude
  listed : ∀ id, answer = some id → id ∈ ids ∧ id ∉ exclude
  /-- A strict rotation goes back to an id only if all others were committed, too. -/
  spent : strict = true → ∀ id, answer = some id → id ∈ earlier →
    ∀ other ∈ ids, other ∉ exclude → other ∈ earlier
  /-- The last id comes again only if it is the only one left. -/
  alone : ∀ id, answer = some id → earlier.head? = some id →
    ∀ other ∈ ids, other ∉ exclude → other = id

/-- Whatever was picked and committed before, a pick behind it keeps the promises of its
rotation. -/
theorem pick_answers {ids : List String} {weight : String → ℚ}
    (positive : ∀ id ∈ ids, 0 < weight id) (strict : Bool) (seed : Float) (deeds : List Deed)
    (exclude : List String) :
    let s := after ({ ids, weight, strict }, Rng.seeded seed) deeds
    Answers ids strict (committed deeds) exclude (s.1.pick? exclude s.2).1 := by
  intro s
  have behind : s.1 = { ids, weight, strict, history := committed deeds } := by
    rw [after_fst]
    simp
  rw [behind]
  constructor
  case nothing => exact pick?_eq_none_iff
  case listed => exact fun id picked => mem_of_mem_eligible (mem_eligible_of_pick? picked)
  case spent =>
    intro mode id picked used other listed left
    obtain ⟨-, turn, -⟩ := (mem_eligible mode).1 (mem_eligible_of_pick? picked)
    by_contra fresh
    exact left (turn used other listed fresh)
  case alone => exact fun id picked last other => pick?_last positive picked last

/-- In a soft rotation the last id is not drawn, though it is not left out; where it is the only one
left it is. -/
theorem pick_answers_soft :
    let weight : String → ℚ := fun id => if id = "a" then 1000 else 1
    let deeds := [.pick [], .commit "b", .commit "a", .pick ["b"]]
    let s := after ({ ids := ["a", "b"], weight, strict := false }, Rng.seeded 0.0) deeds
    (∀ id ∈ ["a", "b"], 0 < weight id) ∧
      (s.1.pick? [] s.2).1 = some "b" ∧ (s.1.pick? ["b"] s.2).1 = some "a" ∧
      Answers ["a", "b"] false ["a", "b"] [] (s.1.pick? [] s.2).1 := by
  intro weight deeds s
  have positive : ∀ id ∈ ["a", "b"], 0 < weight id := by decide +kernel
  exact ⟨positive, by decide +kernel, by decide +kernel,
    pick_answers positive false 0.0 deeds []⟩

end Rotation

end AlphaFoundry
