/-
# AlphaFoundry.Proofs.Generation.Supply -- builds that cannot fail

A catalog may have something for every slot that the skeletons have for a target.  Then every build
ends in a result, and it picks at most as many fields as its shape has room for.  If each slot
accepts more fields than that, a field below the cap is always left, and none is picked beyond it.
`Completes` says all of this of a build, with one rule for each step.
-/
import Mathlib
import AlphaFoundry.Proofs.Generation.Batch
import AlphaFoundry.Proofs.Generation.Picks
import AlphaFoundry.Proofs.Generation.Rotation

namespace AlphaFoundry

set_option autoImplicit false

/-! ## Picks below the cap -/

namespace FieldPicker

variable {p : FieldPicker} {domains avoid : List String} {f : Field}

/-- While there are fewer picks than fields, a pick stays within the cap. -/
theorem timesPicked_pick_le (member : f ∈ p.pool domains avoid) (positive : 1 ≤ p.cap)
    (room : p.picked.length < (p.catalog.fieldsByDomain domains).length)
    (capped : ∀ id, p.timesPicked id ≤ p.cap) (id : String) :
    FieldPicker.timesPicked { p with picked := f :: p.picked } id ≤ p.cap := by
  rw [timesPicked_pick]
  split
  · rename_i same
    subst same
    by_contra beyond
    -- The field was at the cap, so all fields were, and there were as many picks as fields.
    have spent := spent_of_mem_pool member (by omega)
    have many := length_mul_le_picked fun g listed => positive.trans (spent g listed)
    have few := many.trans List.countP_le_length
    simp only [Nat.mul_one, List.length_map] at few
    omega
  · exact capped id

end FieldPicker

/-! ## What a catalog has for a plan -/

/-- The fields that a formula of a shape references at most. -/
def Shape.picks : Shape → Nat
  | sub => 2
  | weight | complement => 0
  | wrap _ inner => inner.picks
  | join _ left right => left.picks + right.picks

/-- There is an operator for each query, and what it takes is the target again. -/
def Shape.suppliedBy (c : Catalog) (target : List String) : Shape → Bool
  | sub => true
  | weight | complement => target.contains literalDomain
  | wrap q inner =>
    let ops := c.compatible { q with output := some target }
    !ops.isEmpty && ops.all (fun op => op.slot 0 = target) && inner.suppliedBy c target
  | join q left right =>
    let ops := c.compatible { q with output := some target }
    !ops.isEmpty && ops.all (fun op => op.slot 0 = target && op.slot 1 = target)
      && left.suppliedBy c target && right.suppliedBy c target

namespace Plan

/-- Formulas of the plan reference at most `room` fields, and each slot of theirs accepts that many,
all of them in the target. -/
def suppliedBy (c : Catalog) (target : List String) (room : Nat) (plan : Plan) : Bool :=
  plan.shape.picks ≤ room && match plan with
    | basic q =>
      let ops := c.compatible { q with output := some target }
      !ops.isEmpty && ops.all fun op => op.inputs.all fun slot =>
        slot.all target.contains && room ≤ (c.fieldsByDomain slot).length
    | combined body | blended body => body.suppliedBy c target

end Plan

namespace Build

/-! ## Builds that end in a result -/

/-- What a build can rely on: a catalog that supplies every skeleton for a target, with room for a
number of fields, and a condition on the turns that are taken. -/
structure Stock where
  catalog : Catalog
  cap : Nat
  target : List String
  room : Nat
  turns : Rotation Rat → Rotation Rat → Prop
  positive : 1 ≤ cap
  supplied : ∀ sk ∈ Skeleton.all, sk.plan.suppliedBy catalog target room = true

/-- A bench in order, with a picker that has picked at most `n` fields. -/
structure Ready (s : Stock) (n : Nat) (b : Bench) : Prop where
  turns : s.turns b.top b.sub
  catalog : b.fields.catalog = s.catalog
  cap : b.fields.cap = s.cap
  few : b.fields.picked.length ≤ n
  capped : ∀ id, b.fields.timesPicked id ≤ s.cap
  drawn : ∀ f ∈ b.fields.picked, f ∈ s.catalog.fieldsByDomain s.target

variable {α β : Type} {s : Stock} {n m k : Nat} {P : α → Prop} {Q : β → Prop}

theorem Ready.mono {b : Bench} (ready : Ready s n b) (more : n ≤ m) : Ready s m b :=
  { ready with few := ready.few.trans more }

/-- With at most `n` fields picked before, a build ends in a result, with at most `m` picked. -/
def Completes (s : Stock) (n m : Nat) (P : α → Prop) (x : Build α) : Prop :=
  ∀ b, Ready s n b → ∃ a b', x b = .ok a b' ∧ P a ∧ Ready s m b'

namespace Completes

theorem pure {a : α} (holds : P a) : Completes s n n P (pure a) :=
  fun b ready => ⟨a, b, rfl, holds, ready⟩

theorem bind {x : Build α} {f : α → Build β} (first : Completes s n m P x)
    (rest : ∀ a, P a → Completes s m k Q (f a)) : Completes s n k Q (x >>= f) := by
  intro b ready
  obtain ⟨a, b', ended, holds, ready⟩ := first b ready
  obtain ⟨a', b'', ended', holds', ready⟩ := rest a holds b' ready
  refine ⟨a', b'', ?_, holds', ready⟩
  rw [bind_of_ok ended]
  exact ended'

theorem mono {x : Build α} (completes : Completes s n m P x) (more : m ≤ k) :
    Completes s n k P x := by
  intro b ready
  obtain ⟨a, b', ended, holds, ready⟩ := completes b ready
  exact ⟨a, b', ended, holds, ready.mono more⟩

theorem draw {f : Rng → α × Rng} (each : ∀ r, P (f r).1) : Completes s n n P (draw f) :=
  fun b ready => ⟨_, _, rfl, each b.rng, { ready with }⟩

theorem get : Completes s n n (Ready s n) get :=
  fun b ready => ⟨b, b, rfl, ready, ready⟩

theorem modify {f : Bench → Bench} (keeps : ∀ b, Ready s n b → Ready s m (f b)) :
    Completes s n m (fun _ => True) (modify f) :=
  fun b ready => ⟨_, f b, rfl, trivial, keeps b ready⟩

theorem attempt {x : Build α} (completes : Completes s n m P x) :
    Completes s n m (fun o => ∃ a, o = some a ∧ P a) (attempt x) := by
  intro b ready
  obtain ⟨a, b', ended, holds, ready⟩ := completes b ready
  exact ⟨some a, b', attempt_of_ok ended, ⟨a, rfl, holds⟩, ready⟩

theorem pick {items : List α} (some_item : items ≠ []) :
    Completes s n n (· ∈ items) (pick items) := by
  have chosen : Completes s n n (fun o => ∃ a ∈ items, o = some a) (Build.draw (·.pick? items)) :=
    .draw fun r => r.pick?_isSome some_item
  refine chosen.bind ?_
  rintro _ ⟨a, member, rfl⟩
  exact .pure member

theorem windowFor (op : Operator) : Completes s n n (fun _ => True) (windowFor op) := by
  unfold Build.windowFor
  split
  · exact .pure trivial
  · exact bind (P := fun _ => True) (.draw fun _ => trivial) fun _ _ => .pure trivial

theorem pickOperator (id : String) {query : Catalog.Query} {target : List String}
    (some_operator : s.catalog.compatible { query with output := some target } ≠ []) :
    Completes s n n (· ∈ s.catalog.compatible { query with output := some target })
      (pickOperator s.catalog id query target) := by
  unfold Build.pickOperator
  split
  · rename_i none
    exact absurd none some_operator
  · exact pick (by assumption)

theorem literal (id : String) (value : Float) (accepted : s.target.contains literalDomain = true) :
    Completes s n n (fun _ => True) (literal id value s.target) := by
  unfold Build.literal
  rw [if_pos accepted]
  exact .pure trivial

/-! ## Fields -/

/-- A slot within the target that accepts as many fields as there is room for. -/
structure Slot (s : Stock) (slot : List String) : Prop where
  inside : ∀ d ∈ slot, d ∈ s.target
  room : s.room ≤ (s.catalog.fieldsByDomain slot).length

theorem Slot.ne_nil {slot : List String} (fits : Slot s slot) (room : n < s.room) :
    s.catalog.fieldsByDomain slot ≠ [] :=
  List.ne_nil_of_length_pos (n.zero_le.trans_lt (room.trans_le fits.room))

theorem pickField {slot : List String} (fits : Slot s slot) (room : n < s.room)
    (avoid : List String) : Completes s n (n + 1) (fun _ => True) (pickField slot avoid) := by
  intro b ready
  have supplied : b.fields.canSupply slot = true := by
    simpa [FieldPicker.canSupply, ready.catalog] using fits.ne_nil room
  have nonempty := FieldPicker.pool_ne_nil supplied avoid
  obtain ⟨f, member, drawn⟩ := b.rng.pick?_isSome nonempty
  have picked : b.fields.pick? slot avoid b.rng
      = (some (f, { b.fields with picked := f :: b.fields.picked }),
        (b.rng.pick? (b.fields.pool slot avoid)).2) := by
    unfold FieldPicker.pick?
    dsimp only
    rw [if_neg (by simpa using nonempty), drawn]
    rfl
  refine ⟨f.id, _, by unfold Build.pickField; rw [picked], trivial, ?_⟩
  have listed : f ∈ s.catalog.fieldsByDomain slot :=
    ready.catalog ▸ FieldPicker.mem_of_mem_pool member
  constructor
  case turns => exact ready.turns
  case catalog => exact ready.catalog
  case cap => exact ready.cap
  case few => exact Nat.succ_le_succ ready.few
  case capped =>
    rw [← ready.cap]
    refine FieldPicker.timesPicked_pick_le member (ready.cap ▸ s.positive) ?_ ?_
    · rw [ready.catalog]
      exact ready.few.trans_lt (room.trans_le fits.room)
    · exact ready.cap.symm ▸ ready.capped
  case drawn =>
    refine List.forall_mem_cons.2 ⟨?_, ready.drawn⟩
    obtain ⟨known, domain⟩ := List.mem_filter.1 listed
    refine List.mem_filter.2 ⟨known, ?_⟩
    simp only [List.contains_iff_mem] at domain ⊢
    exact fits.inside _ domain

theorem pickFields : ∀ {slots : List (List String)} {n : Nat} (used : List String),
    (∀ slot ∈ slots, Slot s slot) → n + slots.length ≤ s.room →
      Completes s n (n + slots.length) (fun _ => True) (pickFields slots used)
  | [], n, used, _, _ => .pure trivial
  | slot :: slots, n, used, each, enough => by
      obtain ⟨here, below⟩ := List.forall_mem_cons.1 each
      rw [List.length_cons, ← Nat.add_assoc, Nat.add_right_comm] at enough ⊢
      refine (pickField here (by omega) used).bind fun id _ => ?_
      exact (pickFields (id :: used) below enough).bind fun _ _ => .pure trivial

/-! ## Formulas -/

theorem basic (id : String) {query : Catalog.Query}
    (supplied : (Plan.basic query).suppliedBy s.catalog s.target s.room = true)
    (enough : n + 2 ≤ s.room) :
    Completes s n (n + 2) (fun _ => True) (basic s.catalog id query s.target) := by
  obtain ⟨-, supplied⟩ := Bool.and_eq_true_iff.1 supplied
  obtain ⟨nonempty, each⟩ := Bool.and_eq_true_iff.1 supplied
  have fits : ∀ op ∈ s.catalog.compatible { query with output := some s.target },
      ∀ slot ∈ op.inputs, Slot s slot := by
    simp only [List.all_eq_true, Bool.and_eq_true, List.contains_iff_mem, decide_eq_true_eq] at each
    intro op compatible slot member
    obtain ⟨inside, room⟩ := each op compatible slot member
    exact ⟨inside, room⟩
  unfold Build.basic
  refine Completes.get.bind fun b ready => ?_
  dsimp only
  -- All compatible operators can be fed, so none is filtered out.
  have fed : (s.catalog.compatible { query with output := some s.target }).filter
      (fun op => op.inputs.all b.fields.canSupply)
        = s.catalog.compatible { query with output := some s.target } := by
    refine List.filter_eq_self.2 fun op compatible => List.all_eq_true.2 fun slot member => ?_
    simpa [FieldPicker.canSupply, ready.catalog] using
      (fits op compatible slot member).ne_nil (n := n) (by omega)
  rw [fed]
  split
  · rename_i none
    rw [none] at nonempty
    cases nonempty
  · rename_i some_operator
    refine (pick some_operator).bind fun op compatible => ?_
    have slots : op.inputs.length ≤ 2 := by
      rw [(suits_of_mem_compatible compatible).sound.slots]
      cases op.arity <;> decide
    have fields := pickFields (n := n) [] (fits op compatible) (by omega)
    refine (fields.mono (k := n + 2) (by omega)).bind fun _ _ => ?_
    exact (windowFor op).bind fun _ _ => .pure trivial

/-- Whatever completes sub-formulas with two picks, completes a shape made of them. -/
theorem shape (id : String) (weight : Float) {sub : List String → Build Expr}
    (subs : ∀ n, n + 2 ≤ s.room → Completes s n (n + 2) (fun _ => True) (sub s.target))
    {body : Shape} (supplied : body.suppliedBy s.catalog s.target = true) :
    ∀ n, n + body.picks ≤ s.room → Completes s n (n + body.picks) (fun _ => True)
      (shape s.catalog id weight sub body s.target) := by
  induction body with
  | sub => exact subs
  | weight => exact fun n _ => literal id weight supplied
  | complement => exact fun n _ => literal id _ supplied
  | wrap query inner ih =>
      intro n enough
      simp only [Shape.suppliedBy, Bool.and_eq_true, List.all_eq_true, decide_eq_true_eq,
        Bool.not_eq_true', List.isEmpty_eq_false_iff] at supplied
      obtain ⟨⟨nonempty, slots⟩, below⟩ := supplied
      refine (pickOperator id nonempty).bind fun op compatible => ?_
      -- What the operator takes is the target again, whichever operator it is.
      rw [slots op compatible]
      refine (ih below n enough).bind fun _ _ => ?_
      exact (windowFor op).bind fun _ _ => .pure trivial
  | join query left right ihl ihr =>
      intro n enough
      simp only [Shape.suppliedBy, Bool.and_eq_true, List.all_eq_true, decide_eq_true_eq,
        Bool.not_eq_true', List.isEmpty_eq_false_iff] at supplied
      obtain ⟨⟨⟨nonempty, slots⟩, supplied₁⟩, supplied₂⟩ := supplied
      refine (pickOperator id nonempty).bind fun op compatible => ?_
      obtain ⟨slot₁, slot₂⟩ := slots op compatible
      rw [slot₁, slot₂]
      rw [Shape.picks, ← Nat.add_assoc] at enough ⊢
      refine (ihl supplied₁ n (by omega)).bind fun _ _ => ?_
      refine (ihr supplied₂ (n + left.picks) enough).bind fun _ _ => ?_
      exact (windowFor op).bind fun _ _ => .pure trivial

theorem skeleton (range : LiteralRange) {sub : List String → Build Expr}
    (subs : ∀ n, n + 2 ≤ s.room → Completes s n (n + 2) (fun _ => True) (sub s.target))
    {sk : Skeleton} (known : sk ∈ Skeleton.all) :
    Completes s 0 s.room (fun _ => True) (skeleton s.catalog range sub sk s.target) := by
  have supplied := s.supplied sk known
  have enough : sk.plan.shape.picks ≤ s.room := by
    simpa using (Bool.and_eq_true_iff.1 supplied).1
  have shaped {body : Shape} (weight : Float) (plan : sk.plan.shape = body)
      (supplied : body.suppliedBy s.catalog s.target = true) :
      Completes s 0 s.room (fun _ => True) (Build.shape s.catalog sk.id weight sub body s.target) := by
    rw [plan] at enough
    exact (shape sk.id weight subs supplied 0 (by omega)).mono (by omega)
  unfold Build.skeleton
  cases plan : sk.plan with
  | basic query =>
      rw [plan] at supplied enough
      have two : 0 + 2 ≤ s.room := enough
      exact (basic sk.id supplied two).mono two
  | combined body =>
      rw [plan] at supplied
      exact shaped 0 (by rw [plan]; rfl) (Bool.and_eq_true_iff.1 supplied).2
  | blended body =>
      rw [plan] at supplied
      have weighed : Completes s 0 0 (fun _ => True) (blendWeight range) :=
        bind (P := fun _ => True) (.draw fun _ => trivial) fun _ _ => .pure trivial
      exact weighed.bind fun weight _ =>
        shaped weight (by rw [plan]; rfl) (Bool.and_eq_true_iff.1 supplied).2

end Completes

/-! ## Skeletons in turn -/

namespace Chooser

/-- While nothing has failed, one of the skeletons is offered. -/
structure Serves (s : Stock) (chooser : Chooser) (skeletons : List Skeleton) : Prop where
  offer : ∀ n, Completes s n n (fun o => ∃ sk ∈ skeletons, o = some sk) (chooser.offer [])
  commit : ∀ sk n, Completes s n n (fun _ => True) (chooser.commit sk)

variable {skeletons : List Skeleton}

theorem rotating_serves (some_skeleton : skeletons ≠ []) {rotation : Bench → Rotation Rat}
    {put : Rotation Rat → Bench → Bench}
    (listed : ∀ b, s.turns b.top b.sub → (rotation b).ids = skeletons.map Skeleton.id)
    (commits : ∀ id b n, Ready s n b → Ready s n (put ((rotation b).commit id) b)) :
    (rotating skeletons rotation put).Serves s skeletons where
  offer n := by
    refine Completes.get.bind fun b ready => ?_
    have ids := listed b ready.turns
    have drawn : Completes s n n (fun o => ∃ sk ∈ skeletons, o = some sk.id)
        (draw ((rotation b).pick? [])) := by
      refine .draw fun r => ?_
      have some_id : (rotation b).ids ≠ [] := by simpa [ids] using some_skeleton
      obtain ⟨id, taken, drawn⟩ := Rotation.pick?_isSome some_id r
      rw [ids] at taken
      obtain ⟨sk, member, rfl⟩ := List.mem_map.1 taken
      exact ⟨sk, member, drawn⟩
    refine drawn.bind ?_
    rintro _ ⟨sk, member, rfl⟩
    refine .pure ?_
    obtain ⟨found, at_id⟩ := Option.isSome_iff_exists.1
      (List.find?_isSome (p := fun other => other.id == sk.id).2 ⟨sk, member, beq_self_eq_true _⟩)
    exact ⟨found, List.mem_of_find?_eq_some at_id, at_id⟩
  commit sk n := .modify fun b ready => commits sk.id b n ready

variable {chooser : Chooser} {make : Skeleton → Build Expr}

theorem round_completes (serves : chooser.Serves s skeletons)
    (makes : ∀ sk ∈ skeletons, Completes s n m (fun _ => True) (make sk)) (size : Nat) :
    Completes s n m (fun o => ∃ built, o = some built) (chooser.round make (size + 1) []) := by
  refine (serves.offer n).bind ?_
  rintro _ ⟨sk, member, rfl⟩
  refine (makes sk member).attempt.bind ?_
  rintro _ ⟨e, rfl, -⟩
  exact (serves.commit sk m).bind fun _ _ => .pure ⟨(sk, e), rfl⟩

/-- The first skeleton that is offered is built. -/
theorem build_completes (serves : chooser.Serves s skeletons) (some_skeleton : skeletons ≠ [])
    (makes : ∀ sk ∈ skeletons, Completes s n m (fun _ => True) (make sk)) (target : List String) :
    Completes s n m (fun _ => True) (chooser.build skeletons make target) := by
  obtain ⟨size, length⟩ := Nat.exists_eq_succ_of_ne_zero
    (List.length_pos_iff.2 some_skeleton).ne'
  have first : Completes s n m (fun o => ∃ built, o = some built)
      (chooser.rounds make skeletons.length maxRounds) := by
    rw [length]
    refine (round_completes serves makes size).bind ?_
    rintro _ ⟨built, rfl⟩
    exact .pure ⟨built, rfl⟩
  refine first.bind ?_
  rintro _ ⟨built, rfl⟩
  exact .pure trivial

end Chooser

theorem basics_plan : ∀ sk ∈ Skeleton.basics, ∃ query, sk.plan = .basic query := by
  intro sk member
  fin_cases member <;> exact ⟨_, rfl⟩

theorem subFormula_completes (range : LiteralRange) {chooser : Chooser}
    (serves : chooser.Serves s Skeleton.basics) (enough : n + 2 ≤ s.room) :
    Completes s n (n + 2) (fun _ => True) (subFormula s.catalog range chooser s.target) := by
  have makes : ∀ sk ∈ Skeleton.basics, Completes s n (n + 2) (fun _ => True)
      (skeleton s.catalog range noSub sk s.target) := by
    intro sk member
    obtain ⟨query, plan⟩ := basics_plan sk member
    have supplied := s.supplied sk (List.mem_append_left _ member)
    rw [plan] at supplied
    unfold skeleton
    rw [plan]
    exact .basic sk.id supplied enough
  exact (Chooser.build_completes serves (by decide) makes s.target).bind fun _ _ => .pure trivial

end Build

end AlphaFoundry
