/-
# AlphaFoundry.Proofs.Generation.Traps -- the steps of a build that cannot fail

A choice needs an item, a slot a field, and an operator as many arguments as it has slots.  Builds
run through these steps without asking; here each of them asks, and does whatever a trap says if the
answer is no.  The two kinds of building are equal for all traps: on a catalog that passed its
checks no trap is sprung, by planning or by any candidate of a planned batch.

`Same` compares two builds on the benches for a catalog; it has one rule for each step, and takes
from `Delivers` what the step before has settled.
-/
import Mathlib
import AlphaFoundry.Failure
import AlphaFoundry.Proofs.Generation.DryRuns
import AlphaFoundry.Proofs.Generation.Batch

namespace AlphaFoundry

set_option autoImplicit false

namespace Build

/-- What is done at the steps that would fail. -/
structure Traps where
  emptyList : (α : Type) → Build α
  noField : (domains : List String) → Build String
  missingArgument : (skeletonId : String) → (index : ℕ) → (operator : String) → Build Expr

namespace Traps

/-- Traps that end a build with a fault of their own. -/
def throwing : Traps where
  emptyList _ := throw .emptyList
  noField domains := throw (.noField domains)
  missingArgument id index operator := throw (.unavailable id (.missingArgument index operator))

variable (t : Traps)

/-! ## Builds with traps -/

def pick {α : Type} (items : List α) : Build α := do
  match ← draw (·.pick? items) with
  | some a => return a
  | none => t.emptyList α

def pickField (domains avoid : List String) : Build String := do
  let fields := (← get).fields
  if fields.canSupply domains then
    let f ← t.pick (fields.pool domains avoid)
    modify fun b => { b with fields := { b.fields with picked := f :: b.fields.picked } }
    return f.id
  else t.noField domains

def pickFields : List (List String) → (used : List String) → Build (List Expr)
  | [], _ => return []
  | slot :: slots, used => do
    let id ← t.pickField slot used
    return .field id :: (← pickFields slots (id :: used))

def basic (c : Catalog) (skeletonId : String) (q : Catalog.Query) (target : List String) :
    Build Expr := do
  let fields := (← get).fields
  match (c.compatible { q with output := some target }).filter
      fun op => op.inputs.all fields.canSupply with
  | [] => throw (.unavailable skeletonId (.fedOperator target))
  | ops =>
    let op ← t.pick ops
    let children ← t.pickFields op.inputs []
    return .apply op.id children (← windowFor op)

/-- One argument for each slot, from slot `i` on. -/
def fill (skeletonId operator : String) :
    (i : ℕ) → (slots : List (List String)) → List (List String → Build Expr) → Build (List Expr)
  | _, [], _ => return []
  | i, slot :: slots, arguments => do
    let e ← match arguments with
      | make :: _ => make slot
      | [] => t.missingArgument skeletonId i operator
    return e :: (← fill skeletonId operator (i + 1) slots arguments.tail)

/-- An operator that takes as many arguments as there are, with the arguments made for its slots. -/
def call (c : Catalog) (skeletonId : String) (q : Catalog.Query) (target : List String)
    (arguments : List (List String → Build Expr)) : Build Expr := do
  match (c.compatible { q with output := some target }).filter
      fun op => op.arity.childCount == arguments.length with
  | [] => throw (.unavailable skeletonId (.operator q target))
  | ops =>
    let op ← t.pick ops
    let children ← t.fill skeletonId op.id 0 op.inputs arguments
    return .apply op.id children (← windowFor op)

def shape (c : Catalog) (skeletonId : String) (weight : Float) (sub : List String → Build Expr) :
    Shape → List String → Build Expr
  | .sub, target => sub target
  | .weight, target => literal skeletonId weight target
  | .complement, target => literal skeletonId (Number.roundPlaces 2 (1 - weight)) target
  | .wrap q inner, target =>
    t.call c skeletonId q target [shape c skeletonId weight sub inner]
  | .join q left right, target =>
    t.call c skeletonId q target
      [shape c skeletonId weight sub left, shape c skeletonId weight sub right]

def skeleton (c : Catalog) (range : LiteralRange) (sub : List String → Build Expr) (s : Skeleton)
    (target : List String) : Build Expr :=
  match s.plan with
  | .basic q => t.basic c s.id q target
  | .combined body => t.shape c s.id 0 sub body target
  | .blended body => do
    let weight ← blendWeight range
    t.shape c s.id weight sub body target

/-! ## Choosers with traps -/

/-- A choice by weight. -/
def pickWeighted {α : Type} (items : List α) (weight : α → Rat) : Build α := do
  match ← draw (·.pickWeighted? items weight) with
  | some a => return a
  | none => t.emptyList α

def weighted (skeletons : List Skeleton) : Chooser where
  offer failed := do
    let unfailed := skeletons.filter fun s => !failed.contains s.id
    if unfailed.isEmpty then return none
    else return some (← t.pickWeighted unfailed fun s => (s.weight : Rat))
  commit _ := return ()

def rotating (skeletons : List Skeleton) (rotation : Bench → Rotation Rat)
    (put : Rotation Rat → Bench → Bench) : Chooser where
  offer failed := do
    let turns := rotation (← get)
    let ids := turns.eligible failed
    if ids.isEmpty then return none
    else
      let id ← t.pickWeighted ids fun id => turns.weight id * turns.age id
      return skeletons.find? fun s => s.id == id
  commit s := modify fun b => put ((rotation b).commit s.id) b

def subFormula (c : Catalog) (range : LiteralRange) (chooser : Chooser) (target : List String) :
    Build Expr := do
  let (_, e) ← chooser.build Skeleton.basics (fun s => t.skeleton c range noSub s target) target
  return e

/-! ## Planning and yielding with traps -/

open Generation in
def probe (c : Catalog) (cap : Nat) (range : LiteralRange) (signal : List String) (s : Skeleton) :
    Nat → Rng → Except Fault Bool × Rng
  | 0, r => (.ok false, r)
  | n + 1, r =>
    let sub := t.subFormula c range (t.weighted Skeleton.basics)
    let bench : Bench := ⟨r, { catalog := c, cap }, noTurns, noTurns⟩
    match attempt (t.skeleton c range sub s signal) bench with
    | .ok (some _) b => (.ok true, b.rng)
    | .ok none b => probe c cap range signal s n b.rng
    | .error fault b => (.error fault, b.rng)

def feasible (c : Catalog) (cap : Nat) (range : LiteralRange) (signal : List String) :
    List Skeleton → Rng → Logged Fault (List Skeleton)
  | [], _ => return []
  | s :: rest, r =>
    match t.probe c cap range signal s Generation.maxProbes r with
    | (.error fault, _) => Logged.fail fault
    | (.ok true, r) => return s :: (← feasible c cap range signal rest r)
    | (.ok false, r) => do
      Logged.note .debug s!"Skeleton {s.id} cannot be built from this catalog"
      feasible c cap range signal rest r

open Generation in
def plan (c : Catalog) (tier : String) (count : Float) (o : Options) : Logged PlanFault Batch := do
  let batch ← (Logged.ofExcept (check c tier count o)).mapError .request
  let skeletons ← (t.feasible c batch.cap batch.literalRange batch.signal (pool batch.tier)
    (probeStream batch.seed)).mapError .build
  if skeletons.isEmpty then Logged.fail (.request (.noSkeleton batch.tier))
  else
    Logged.note .info
      s!"Generating {batch.count} {batch.tier.name} alpha(s) with seed {Number.text batch.seed}"
    return { batch with skeletons }

def buildInner (p : Batch) : Build (Skeleton × Expr) := do
  modify fun b => { b with fields := { catalog := p.catalog, cap := p.cap } }
  let top := t.rotating p.skeletons Bench.top fun top b => { b with top }
  let sub := t.subFormula p.catalog p.literalRange
    (t.rotating Skeleton.basics Bench.sub fun sub b => { b with sub })
  top.build p.skeletons (fun s => t.skeleton p.catalog p.literalRange sub s p.signal) p.signal

def yieldFrom (p : Batch) : (n : Nat) → (number : Nat) → Bench → Batch.Yield
  | 0, _, _ => ⟨[], none⟩
  | n + 1, number, b =>
    match t.buildInner p b with
    | .error fault _ => ⟨[], some fault⟩
    | .ok (s, inner) b =>
      let rest := yieldFrom p n (number + 1) b
      ⟨p.candidate number s.id inner :: rest.candidates, rest.fault⟩

def yield (p : Batch) : Batch.Yield :=
  t.yieldFrom p p.count 1 p.bench

end Traps

/-! ## Builds that are the same -/

variable {α β : Type} {c : Catalog}

/-- Two builds are the same on every bench for a catalog. -/
def Same (c : Catalog) (x y : Build α) : Prop :=
  ∀ b : Bench, b.fields.catalog = c → x b = y b

namespace Same

theorem refl (x : Build α) : Same c x x :=
  fun _ _ => rfl

theorem bind {x y : Build α} {f g : α → Build β} {P : α → Prop} (first : Same c x y)
    (delivers : Delivers c P y) (rest : ∀ a, P a → Same c (f a) (g a)) :
    Same c (x >>= f) (y >>= g) := by
  intro b same
  have ends := delivers b same
  have first := first b same
  cases result : y b with
  | ok a b' =>
      rw [result] at ends first
      rw [bind_of_ok first, bind_of_ok result]
      exact rest a ends.1 b' ends.2
  | error fault b' =>
      rw [result] at first
      rw [bind_of_error first, bind_of_error result]

theorem attempt {x y : Build α} (same : Same c x y) : Same c (attempt x) (attempt y) := by
  intro b for_c
  unfold Build.attempt
  rw [same b for_c]

end Same

namespace Traps

variable {t : Traps}

/-! ## Choices -/

/-- What would follow on nothing does not matter where something is drawn. -/
theorem draw_bind_congr {f : Rng → Option α × Rng} {k k' : Option α → Build β}
    (drawn : ∀ r, ∃ a, (f r).1 = some a) (same : ∀ a, k (some a) = k' (some a)) :
    draw f >>= k = draw f >>= k' := by
  funext b
  obtain ⟨a, found⟩ := drawn b.rng
  show k (f b.rng).1 _ = k' (f b.rng).1 _
  rw [found, same a]

theorem pick_of_some {items : List α} {a : α} {b : Bench}
    (picked : (b.rng.pick? items).1 = some a) :
    Build.pick items b = .ok a { b with rng := (b.rng.pick? items).2 } := by
  simp only [Build.pick, bind, EStateM.bind, draw, picked]
  rfl

theorem pick_eq {items : List α} (some_item : items ≠ []) : t.pick items = Build.pick items :=
  draw_bind_congr (fun r => (r.pick?_isSome some_item).imp fun _ picked => picked.2) fun _ => rfl

theorem pickWeighted_bind {items : List α} (some_item : items ≠ []) (weight : α → Rat)
    (f : Option α → Build β) :
    (t.pickWeighted items weight >>= fun a => f (some a))
      = draw (·.pickWeighted? items weight) >>= f := by
  unfold pickWeighted
  rw [bind_assoc]
  refine draw_bind_congr (fun r => ?_) fun a => ?_
  · exact (r.pickWeighted?_isSome some_item weight).imp fun _ picked => picked.2
  · exact pure_bind a _

theorem weighted_eq (skeletons : List Skeleton) : t.weighted skeletons = .weighted skeletons := by
  unfold weighted Chooser.weighted
  congr 1
  funext failed
  dsimp only
  split
  · rfl
  · rename_i unfailed
    exact (t.pickWeighted_bind (by simpa using unfailed) _ pure).trans (bind_pure _)

theorem rotating_eq (skeletons : List Skeleton) (rotation : Bench → Rotation Rat)
    (put : Rotation Rat → Bench → Bench) :
    t.rotating skeletons rotation put = .rotating skeletons rotation put := by
  unfold rotating Chooser.rotating
  congr 1
  funext failed
  refine congrArg (get >>= ·) (funext fun b => ?_)
  dsimp only
  split
  · rename_i none_left
    have nothing : (rotation b).pick? failed = fun r => (none, r) :=
      funext fun r => if_pos none_left
    rw [nothing]
    rfl
  · rename_i some_left
    set turns := rotation b
    have weighing : turns.pick? failed = fun r => r.pickWeighted? (turns.eligible failed)
        fun id => turns.weight id * turns.age id := by
      funext r
      exact if_neg some_left
    rw [weighing]
    exact pickWeighted_bind (by simpa using some_left) _ fun id : Option String =>
      (return id.bind fun id => skeletons.find? fun s => s.id == id : Build (Option Skeleton))

/-! ## Fields -/

theorem pickField_same {domains avoid : List String} (supplied : c.fieldsByDomain domains ≠ []) :
    Same c (t.pickField domains avoid) (Build.pickField domains avoid) := by
  intro b same
  have supplied : b.fields.canSupply domains = true := by
    simpa [FieldPicker.canSupply, same] using supplied
  have filled := FieldPicker.pool_ne_nil supplied avoid
  obtain ⟨f, -, picked⟩ := b.rng.pick?_isSome filled
  show (if b.fields.canSupply domains = true then _ else t.noField domains : Build String) b = _
  rw [if_pos supplied, pick_eq filled]
  unfold Build.pickField FieldPicker.pick?
  dsimp only
  rw [if_neg (by simpa using filled)]
  show EStateM.bind (Build.pick _) _ b = _
  unfold EStateM.bind
  rw [pick_of_some picked, picked]
  rfl

theorem pickFields_same {slots : List (List String)}
    (supplied : ∀ slot ∈ slots, c.fieldsByDomain slot ≠ []) : ∀ used : List String,
    Same c (t.pickFields slots used) (Build.pickFields slots used) := by
  induction slots with
  | nil => exact fun used => .refl _
  | cons slot slots ih =>
      intro used
      obtain ⟨here, below⟩ := List.forall_mem_cons.1 supplied
      refine (pickField_same here).bind (pickField_delivers here) fun id _ => ?_
      exact (ih below (id :: used)).bind (pickFields_delivers below _) fun es _ => .refl _

variable {q : Catalog.Query} {target : List String}

theorem basic_same (id : String) : Same c (t.basic c id q target) (Build.basic c id q target) := by
  unfold basic Build.basic
  refine (Same.refl get).bind .get fun b same => ?_
  dsimp only
  generalize found : List.filter _ _ = ops
  cases ops with
  | nil => exact .refl _
  | cons op rest =>
      have nonempty := List.cons_ne_nil op rest
      show Same c (t.pick (op :: rest) >>= _) (Build.pick (op :: rest) >>= _)
      rw [pick_eq nonempty]
      refine (Same.refl _).bind (pick_delivers nonempty) fun op member => ?_
      have supplied : ∀ slot ∈ op.inputs, c.fieldsByDomain slot ≠ [] := by
        intro slot listed
        rw [← found] at member
        have := List.all_eq_true.1 (List.mem_filter.1 member).2 slot listed
        simpa [FieldPicker.canSupply, same] using this
      exact (pickFields_same supplied []).bind (pickFields_delivers supplied []) fun es _ =>
        .refl _

/-! ## Arguments -/

/-- Operators that always take as many arguments as there are need not be asked how many. -/
theorem call_same (id : String) {arguments : List (List String → Build Expr)}
    {rest : Operator → Build Expr}
    (count : ∀ op, Suits c q target op → op.arity.childCount = arguments.length)
    (same : ∀ op, Suits c q target op → Same c
      (t.fill id op.id 0 op.inputs arguments >>= fun es => return .apply op.id es (← windowFor op))
      (rest op)) :
    Same c (t.call c id q target arguments) (pickOperator c id q target >>= rest) := by
  have all : (c.compatible { q with output := some target }).filter
      (fun op => op.arity.childCount == arguments.length)
        = c.compatible { q with output := some target } :=
    List.filter_eq_self.2 fun op member => beq_iff_eq.2 (count op (suits_of_mem_compatible member))
  unfold call pickOperator
  rw [all]
  generalize found : c.compatible _ = ops
  cases ops with
  | nil => exact .refl _
  | cons op others =>
      have nonempty := List.cons_ne_nil op others
      show Same c (t.pick (op :: others) >>= _) (Build.pick (op :: others) >>= _)
      rw [pick_eq nonempty]
      exact (Same.refl _).bind (pick_delivers nonempty) fun op member =>
        same op (suits_of_mem_compatible (found ▸ member))

theorem shape_same (id : String) {weight : Float} (finite : weight.isFinite = true)
    (complement : (Number.roundPlaces 2 (1 - weight)).isFinite = true)
    {sub sub' : List String → Build Expr}
    (subs : ∀ target, Delivers c (Fills c target .sub) (sub target))
    (same : ∀ target, Same c (sub' target) (sub target)) {body : Shape}
    (fits : body.fits = true) : ∀ target : List String,
      Same c (t.shape c id weight sub' body target) (Build.shape c id weight sub body target) := by
  induction body with
  | sub => exact same
  | weight => exact fun target => .refl _
  | complement => exact fun target => .refl _
  | wrap q inner ih =>
      intro target
      simp only [Shape.fits, Bool.and_eq_true, Bool.not_eq_true', Bool.or_eq_true,
        decide_eq_true_eq] at fits
      obtain ⟨⟨-, arity⟩, below⟩ := fits
      have single (op : Operator) (suits : Suits c q target op) : op.arity.childCount = 1 := by
        rcases arity with unary | windowed
        · rw [suits.arity _ unary]; rfl
        · rw [suits.arity _ windowed]; rfl
      refine call_same id single fun op suits => ?_
      obtain ⟨slot, slots⟩ := List.length_eq_one_iff.1 (suits.sound.slots.trans (single op suits))
      have first : op.slot 0 = slot := by simp [Operator.slot, slots]
      rw [slots, first]
      simp only [fill, bind_assoc, pure_bind]
      exact (ih below slot).bind (shape_delivers id finite complement subs below slot)
        fun e _ => .refl _
  | join q left right ihl ihr =>
      intro target
      simp only [Shape.fits, Bool.and_eq_true, Bool.not_eq_true', decide_eq_true_eq] at fits
      obtain ⟨⟨⟨-, arity⟩, fits₁⟩, fits₂⟩ := fits
      have double (op : Operator) (suits : Suits c q target op) : op.arity.childCount = 2 := by
        rw [suits.arity _ arity]; rfl
      refine call_same id double fun op suits => ?_
      obtain ⟨slot₁, slot₂, slots⟩ :=
        List.length_eq_two.1 (suits.sound.slots.trans (double op suits))
      have first : op.slot 0 = slot₁ := by simp [Operator.slot, slots]
      have second : op.slot 1 = slot₂ := by simp [Operator.slot, slots]
      rw [slots, first, second]
      simp only [fill, bind_assoc, pure_bind, List.tail_cons]
      refine (ihl fits₁ slot₁).bind (shape_delivers id finite complement subs fits₁ slot₁)
        fun e₁ _ => ?_
      exact (ihr fits₂ slot₂).bind (shape_delivers id finite complement subs fits₂ slot₂)
        fun e₂ _ => .refl _

theorem skeleton_same {range : LiteralRange}
    (valid : Generation.LiteralRange.isValid range = true) {sub sub' : List String → Build Expr}
    (subs : ∀ target, Delivers c (Fills c target .sub) (sub target))
    (same : ∀ target, Same c (sub' target) (sub target)) {s : Skeleton}
    (fits : s.plan.fits = true) (target : List String) :
    Same c (t.skeleton c range sub' s target) (Build.skeleton c range sub s target) := by
  unfold skeleton Build.skeleton
  cases plan : s.plan with
  | basic q => exact basic_same s.id
  | combined body =>
      rw [plan] at fits
      exact shape_same s.id (by decide +kernel) (by decide +kernel) subs same fits target
  | blended body =>
      rw [plan] at fits
      refine (Same.refl _).bind (blendWeight_delivers valid) fun weight within => ?_
      exact shape_same s.id within.isFinite (within.complement.roundPlaces (by norm_num)).isFinite
        subs same fits target

/-! ## Skeletons in turn -/

section

variable {chooser : Chooser} {skeletons : List Skeleton} {P : Skeleton → Expr → Prop}
  {make make' : Skeleton → Build Expr}

theorem round_same (offers : chooser.Offers c skeletons)
    (makes : ∀ s ∈ skeletons, Delivers c (P s) (make s))
    (same : ∀ s ∈ skeletons, Same c (make' s) (make s)) : ∀ (n : ℕ) (failed : List String),
      Same c (chooser.round make' n failed) (chooser.round make n failed) := by
  intro n
  induction n with
  | zero => exact fun failed => .refl _
  | succ n ih =>
      intro failed
      refine (Same.refl _).bind (offers.offer failed) fun offered listed => ?_
      cases offered with
      | none => exact .refl _
      | some s =>
          have member := listed s rfl
          refine (same s member).attempt.bind (makes s member).attempt fun result _ => ?_
          cases result with
          | none => exact ih (s.id :: failed)
          | some e => exact .refl _

theorem rounds_same (offers : chooser.Offers c skeletons)
    (makes : ∀ s ∈ skeletons, Delivers c (P s) (make s))
    (same : ∀ s ∈ skeletons, Same c (make' s) (make s)) (size : ℕ) : ∀ n : ℕ,
      Same c (chooser.rounds make' size n) (chooser.rounds make size n) := by
  intro n
  induction n with
  | zero => exact .refl _
  | succ n ih =>
      refine (round_same offers makes same size []).bind
        (Chooser.round_delivers offers makes size []) fun result _ => ?_
      cases result with
      | none => exact ih
      | some built => exact .refl _

theorem build_same (offers : chooser.Offers c skeletons)
    (makes : ∀ s ∈ skeletons, Delivers c (P s) (make s))
    (same : ∀ s ∈ skeletons, Same c (make' s) (make s)) (target : List String) :
    Same c (chooser.build skeletons make' target) (chooser.build skeletons make target) :=
  (rounds_same offers makes same skeletons.length Chooser.maxRounds).bind
    (Chooser.rounds_delivers offers makes skeletons.length Chooser.maxRounds) fun _ _ => .refl _

end

/-! ## Planning and yielding -/

variable {range : LiteralRange} {chooser : Chooser}

theorem subFormula_same (valid : Generation.LiteralRange.isValid range = true)
    (offers : chooser.Offers c Skeleton.basics) (target : List String) :
    Same c (t.subFormula c range chooser target) (Build.subFormula c range chooser target) := by
  have makes := basics_deliver (c := c) valid target
  refine (build_same (P := fun _ => Fills c target .sub) offers makes ?_ target).bind
    (Chooser.build_delivers offers makes target) fun _ _ => .refl _
  intro s member
  obtain ⟨fits, -⟩ := Skeleton.all_fit s (List.mem_append_left _ member)
  exact skeleton_same valid (fun below => noSub_delivers below) (fun below => .refl _) fits target

theorem probe_eq (valid : Generation.LiteralRange.isValid range = true) {s : Skeleton}
    (known : s ∈ Skeleton.all) (cap : ℕ) (signal : List String) : ∀ (n : ℕ) (r : Rng),
      t.probe c cap range signal s n r = Generation.probe c cap range signal s n r := by
  have offers := Chooser.weighted_offers (c := c) Skeleton.basics
  have same := (skeleton_same (t := t) valid (subFormula_delivers valid offers)
    (subFormula_same (t := t) valid offers) (Skeleton.all_fit s known).1 signal).attempt
  intro n
  induction n with
  | zero => exact fun r => rfl
  | succ n ih =>
      intro r
      unfold probe Generation.probe
      dsimp only
      rewrite [weighted_eq, same _ rfl, funext ih]
      rfl

theorem feasible_eq (valid : Generation.LiteralRange.isValid range = true) (cap : ℕ)
    (signal : List String) : ∀ (ss : List Skeleton), (∀ s ∈ ss, s ∈ Skeleton.all) → ∀ r : Rng,
      t.feasible c cap range signal ss r = Generation.feasible c cap range signal ss r := by
  intro ss
  induction ss with
  | nil => exact fun _ r => rfl
  | cons s rest ih =>
      intro known r
      obtain ⟨here, below⟩ := List.forall_mem_cons.1 known
      unfold feasible Generation.feasible
      rewrite [probe_eq valid here, funext (ih below)]
      rfl

/-- Planning springs no trap. -/
theorem plan_eq (c : Catalog) (tier : String) (count : Float) (o : Generation.Options) :
    t.plan c tier count o = Generation.plan c tier count o := by
  unfold plan Generation.plan
  refine Logged.bind_congr_of_ok fun q checked => ?_
  have planned := Generation.planned_of_check (Logged.mapError_result.1 checked)
  rw [feasible_eq planned.range q.cap q.signal (Generation.pool q.tier)
    fun s member => Skeleton.mem_all_of_mem_pool member]

variable {p : Batch}

theorem buildInner_same (valid : Generation.LiteralRange.isValid p.literalRange = true)
    (known : ∀ s ∈ p.skeletons, s ∈ Skeleton.all) :
    Same p.catalog (t.buildInner p) p.buildInner := by
  unfold buildInner Batch.buildInner
  refine (Same.refl _).bind (P := fun _ => True) (.modify fun _ _ => rfl) fun _ _ => ?_
  dsimp only
  rw [rotating_eq, rotating_eq]
  have offers := Batch.subChooser_offers p.catalog
  refine build_same (Batch.topChooser_offers p.catalog) (P := fun s =>
    Fills p.catalog p.signal s.plan.shape) ?_ ?_ p.signal
  · intro s member
    exact skeleton_delivers valid (subFormula_delivers valid offers)
      (Skeleton.all_fit s (known s member)).1 p.signal
  · intro s member
    exact skeleton_same valid (subFormula_delivers valid offers) (subFormula_same valid offers)
      (Skeleton.all_fit s (known s member)).1 p.signal

theorem yieldFrom_eq (valid : Generation.LiteralRange.isValid p.literalRange = true)
    (known : ∀ s ∈ p.skeletons, s ∈ Skeleton.all) : ∀ (n number : ℕ) (b : Bench),
      b.fields.catalog = p.catalog → t.yieldFrom p n number b = p.yieldFrom n number b := by
  intro n
  induction n with
  | zero => exact fun number b _ => rfl
  | succ n ih =>
      intro number b same
      have ends := Batch.buildInner_delivers valid known b same
      unfold yieldFrom Batch.yieldFrom
      rw [buildInner_same valid known b same]
      cases result : p.buildInner b with
      | error fault b' => rfl
      | ok built b' =>
          rw [result] at ends
          dsimp only
          rw [ih _ b' ends.2]

/-- Yielding a planned batch springs no trap. -/
theorem yield_eq {tier : String} {count : Float} {o : Generation.Options}
    (planned : Generation.Planned c tier count o p) : t.yield p = p.yield :=
  yieldFrom_eq planned.range
    (fun s member => Skeleton.mem_all_of_mem_pool (planned.skeletons s member)) p.count 1 p.bench
    rfl

end Traps

end Build

end AlphaFoundry
