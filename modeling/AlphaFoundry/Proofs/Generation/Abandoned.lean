/-
# AlphaFoundry.Proofs.Generation.Abandoned -- what an abandoned build leaves behind

A skeleton that turns out to be unavailable is abandoned, and another one is tried on the bench as
it then is.  What the sub-formulas that were finished by then picked and committed is not taken back.
`skeletonLog` is the same build, and also tells these sub-formulas.  Between the bench before an
abandoned build and the bench behind it lie their picks and their turns, and nothing else but draws
from the stream; so the build leaves no trace exactly if no sub-formula was finished in it.
-/
import Mathlib
import AlphaFoundry.Proofs.Expr.Usage
import AlphaFoundry.Proofs.Generation.Rounds
import AlphaFoundry.Proofs.Generation.Spread

namespace AlphaFoundry

set_option autoImplicit false

namespace Build

variable {α β : Type}

/-! ## Attempts -/

theorem attempt_draw (f : Rng → α × Rng) : attempt (draw f) = some <$> draw f := rfl

theorem attempt_bind (x : Build α) (f : α → Build β) :
    attempt (x >>= f) = attempt x >>= fun o => match o with
      | some a => attempt (f a)
      | none => pure none := by
  funext b
  show attempt (EStateM.bind x f) b = EStateM.bind (attempt x) _ b
  unfold attempt EStateM.bind
  dsimp only
  cases x b with
  | ok a b' => rfl
  | error fault b' => cases fault <;> rfl

/-- The bench behind a build that was abandoned. -/
def abandoned? (x : Build α) (b : Bench) : Option Bench :=
  match x b with
  | .error (.unavailable ..) b' => some b'
  | _ => none

theorem abandoned?_eq_some {x : Build α} {b b' : Bench} :
    abandoned? x b = some b' ↔ attempt x b = .ok none b' := by
  unfold abandoned? attempt
  cases x b with
  | ok a b'' => simp
  | error fault b'' => cases fault <;> simp

/-- A window is never lacking. -/
theorem attempt_windowFor (op : Operator) : attempt (windowFor op) = some <$> windowFor op := by
  unfold windowFor
  split
  · rfl
  · rw [attempt_bind, attempt_draw]
    rfl

/-! ## Finished sub-formulas -/

section Log

variable (c : Catalog) (skeletonId : String) (weight : Float)
  (sub : List String → Build (Skeleton × Expr))

/-- Fill a shape, and tell the sub-formulas that were finished, even if the shape is abandoned. -/
def shapeLog : Shape → List String → Build (List (Skeleton × Expr) × Option Expr)
  | .sub, target => do
    let built ← attempt (sub target)
    return (built.toList, built.map Prod.snd)
  | .weight, target => do return ([], ← attempt (literal skeletonId weight target))
  | .complement, target => do
    return ([], ← attempt (literal skeletonId (Number.roundPlaces 2 (1 - weight)) target))
  | .wrap q inner, target => do
    match ← attempt (pickOperator c skeletonId q target) with
    | none => return ([], none)
    | some op =>
      match ← shapeLog inner (op.slot 0) with
      | (done, none) => return (done, none)
      | (done, some child) => return (done, some (.apply op.id [child] (← windowFor op)))
  | .join q left right, target => do
    match ← attempt (pickOperator c skeletonId q target) with
    | none => return ([], none)
    | some op =>
      match ← shapeLog left (op.slot 0) with
      | (done, none) => return (done, none)
      | (done, some first) =>
        match ← shapeLog right (op.slot 1) with
        | (later, none) => return (done ++ later, none)
        | (later, some second) =>
          return (done ++ later, some (.apply op.id [first, second] (← windowFor op)))

/-- Build a skeleton, and tell the sub-formulas that were finished. -/
def skeletonLog (range : LiteralRange) (s : Skeleton) (target : List String) :
    Build (List (Skeleton × Expr) × Option Expr) :=
  match s.plan with
  | .basic q => do return ([], ← attempt (basic c s.id q target))
  | .combined body => shapeLog c s.id 0 sub body target
  | .blended body => do
    let weight ← blendWeight range
    shapeLog c s.id weight sub body target

end Log

variable {c : Catalog} {sub : List String → Build (Skeleton × Expr)}

theorem shapeLog_snd (id : String) (weight : Float) : ∀ (body : Shape) (target : List String),
    Prod.snd <$> shapeLog c id weight sub body target
      = attempt (shape c id weight (fun target => Prod.snd <$> sub target) body target) := by
  intro body
  induction body with
  | sub =>
      intro target
      unfold shapeLog shape
      rw [map_bind, ← bind_pure_comp, attempt_bind]
      refine bind_congr fun built => ?_
      cases built <;> rfl
  | weight =>
      intro target
      unfold shapeLog shape
      rw [map_bind]
      exact bind_pure _
  | complement =>
      intro target
      unfold shapeLog shape
      rw [map_bind]
      exact bind_pure _
  | wrap q inner ih =>
      intro target
      unfold shapeLog shape
      rw [map_bind, attempt_bind]
      refine bind_congr fun picked => ?_
      cases picked with
      | none => rfl
      | some op =>
          dsimp only
          rw [map_bind, attempt_bind, ← ih, bind_map_left]
          refine bind_congr fun ⟨done, child⟩ => ?_
          cases child with
          | none => rfl
          | some child =>
              dsimp only
              rw [map_bind, attempt_bind, attempt_windowFor, bind_map_left]
              rfl
  | join q left right ihLeft ihRight =>
      intro target
      unfold shapeLog shape
      rw [map_bind, attempt_bind]
      refine bind_congr fun picked => ?_
      cases picked with
      | none => rfl
      | some op =>
          dsimp only
          rw [map_bind, attempt_bind, ← ihLeft, bind_map_left]
          refine bind_congr fun ⟨done, first⟩ => ?_
          cases first with
          | none => rfl
          | some first =>
              dsimp only
              rw [map_bind, attempt_bind, ← ihRight, bind_map_left]
              refine bind_congr fun ⟨later, second⟩ => ?_
              cases second with
              | none => rfl
              | some second =>
                  dsimp only
                  rw [map_bind, attempt_bind, attempt_windowFor, bind_map_left]
                  rfl

/-- An attempt is what its log ends with. -/
theorem skeletonLog_snd (range : LiteralRange) (s : Skeleton) (target : List String) :
    Prod.snd <$> skeletonLog c sub range s target
      = attempt (skeleton c range (fun target => Prod.snd <$> sub target) s target) := by
  unfold skeletonLog skeleton
  cases s.plan with
  | basic q =>
      dsimp only
      rw [map_bind]
      exact bind_pure _
  | combined body => exact shapeLog_snd s.id 0 body target
  | blended body =>
      have drawn : attempt (blendWeight range) = some <$> blendWeight range := rfl
      dsimp only
      rw [map_bind, attempt_bind, drawn, bind_map_left]
      exact bind_congr fun weight => shapeLog_snd s.id weight body target

/-! ## Records -/

/-- From one bench to another these turns were taken among the basic skeletons and these fields
picked, both in this order, and nothing else changed but the stream. -/
structure Bench.Recorded (b : Bench) (turns ids : List String) (b' : Bench) : Prop where
  top : b'.top = b.top
  sub : b'.sub = { b.sub with history := turns.reverse ++ b.sub.history }
  fields : b.fields.Picked b'.fields ids

namespace Bench.Recorded

variable {b b' b'' : Bench} {turns turns' ids ids' : List String}

theorem refl (b : Bench) : b.Recorded [] [] b :=
  ⟨rfl, rfl, .refl _⟩

theorem trans (first : b.Recorded turns ids b') (later : b'.Recorded turns' ids' b'') :
    b.Recorded (turns ++ turns') (ids ++ ids') b'' := by
  refine ⟨later.top.trans first.top, ?_, first.fields.trans later.fields⟩
  rw [later.sub, first.sub, List.reverse_append, List.append_assoc]

theorem drifts : Drifts (b.Recorded turns ids) :=
  fun _ _ recorded => ⟨recorded.top, recorded.sub, recorded.fields⟩

theorem pick (recorded : b.Recorded turns ids b') (f : Field) (rng : Rng) :
    b.Recorded turns (ids ++ [f.id])
      { b' with rng, fields := { b'.fields with picked := f :: b'.fields.picked } } := by
  have step : b'.Recorded [] [f.id]
      { b' with rng, fields := { b'.fields with picked := f :: b'.fields.picked } } :=
    ⟨rfl, rfl, [f], rfl, rfl⟩
  simpa using recorded.trans step

theorem commit (recorded : b.Recorded turns ids b') (id : String) :
    b.Recorded (turns ++ [id]) ids { b' with sub := b'.sub.commit id } := by
  have step : b'.Recorded [id] [] { b' with sub := b'.sub.commit id } := ⟨rfl, rfl, .refl _⟩
  simpa using recorded.trans step

theorem sub_eq_iff (recorded : b.Recorded turns ids b') : b'.sub = b.sub ↔ turns = [] := by
  rw [recorded.sub]
  constructor
  · intro same
    simpa using congrArg (fun r => r.history.length) same
  · rintro rfl
    rfl

theorem fields_eq_iff (recorded : b.Recorded turns ids b') : b'.fields = b.fields ↔ ids = [] := by
  obtain ⟨picks, named, fields⟩ := recorded.fields
  have count : picks.length = ids.length := by simpa using congrArg List.length named
  rw [fields]
  constructor
  · intro same
    have := congrArg (fun p => p.picked.length) same
    simp only [List.length_append] at this
    exact List.length_eq_zero_iff.1 (by omega)
  · rintro rfl
    rw [List.length_eq_zero_iff.1 count]
    rfl

end Bench.Recorded

/-! ## Steps that only draw -/

/-- Where something is lacking, the bench is as said; other faults are not caught. -/
def Lacking (J : Bench → Prop) (fault : Fault) (b : Bench) : Prop :=
  fault.IsLack → J b

section Steps

variable {I J K : Bench → Prop} {P : α → Bench → Prop}

theorem Ensures.attempt {x : Build α} (ensures : Ensures I P (Lacking J) x) :
    Ensures I (fun o b => match o with
      | some a => P a b
      | none => J b) (Lacking K) (attempt x) := by
  intro b holds
  have meets := ensures b holds
  unfold Build.attempt
  cases result : x b with
  | ok a b' =>
      rw [result] at meets
      exact meets
  | error fault b' =>
      rw [result] at meets
      cases fault with
      | unavailable id lack => exact meets trivial
      | noField domains => exact False.elim
      | emptyList => exact False.elim

theorem Drifts.pick (drifts : Drifts I) (items : List α) :
    Ensures I (fun a b => a ∈ items ∧ I b) (Lacking J) (pick items) := by
  have listed (r : Rng) : ∀ a ∈ (r.pick? items).1, a ∈ items := fun a drawn =>
    List.mem_of_getElem? drawn
  refine (drifts.draw (F := fun o => ∀ a ∈ o, a ∈ items) listed).bind fun o => ?_
  cases o with
  | none => exact .throw fun _ _ => False.elim
  | some a => exact .pure fun b holds => ⟨holds.1 a rfl, holds.2⟩

theorem Drifts.pickOperator (drifts : Drifts I) (id : String) (q : Catalog.Query)
    (target : List String) :
    Ensures I (fun op b => op ∈ c.compatible { q with output := some target } ∧ I b) (Lacking I)
      (pickOperator c id q target) := by
  unfold Build.pickOperator
  split
  · exact .throw fun b holds _ => holds
  · exact drifts.pick _

end Steps

theorem literal_ensures {I : Bench → Prop} (id : String) (value : Float) (slot : List String) :
    Ensures I (fun e b => Visit.fieldIds e.visits = [] ∧ I b) (Lacking I)
      (literal id value slot) := by
  unfold literal
  split
  · exact .pure fun b holds => ⟨Expr.fieldIds_literal value, holds⟩
  · exact .throw fun b holds _ => holds

/-! ## Basic skeletons -/

section Basic

variable {b : Bench} {turns ids : List String} {J : Bench → Prop}

theorem pickField_records (slot avoid : List String) :
    Ensures (b.Recorded turns ids) (fun id b' => b.Recorded turns (ids ++ [id]) b') (Lacking J)
      (pickField slot avoid) := by
  intro b' recorded
  unfold pickField FieldPicker.pick?
  dsimp only
  split
  · rename_i f fields rng picked
    split at picked
    · cases picked
    · obtain ⟨chosen, rfl⟩ := Prod.mk.inj picked
      obtain ⟨g, -, same⟩ := Option.map_eq_some_iff.1 chosen
      obtain ⟨rfl, rfl⟩ := Prod.mk.inj same
      exact recorded.pick g _
  · exact False.elim

theorem pickFields_records : ∀ (slots : List (List String)) (used ids : List String),
    Ensures (b.Recorded turns ids)
      (fun es b' => ∃ new : List String, es = new.map Expr.field ∧ new.length = slots.length ∧
        b.Recorded turns (ids ++ new) b') (Lacking J) (pickFields slots used)
  | [], used, ids => .pure fun b' recorded => ⟨[], rfl, rfl, by rwa [List.append_nil]⟩
  | slot :: slots, used, ids => by
      refine (pickField_records slot used).bind fun id => ?_
      refine (pickFields_records slots (id :: used) (ids ++ [id])).bind fun es => ?_
      refine .pure fun b' => ?_
      rintro ⟨new, rfl, length, recorded⟩
      refine ⟨id :: new, rfl, by rw [List.length_cons, length, List.length_cons], ?_⟩
      rwa [List.append_assoc] at recorded

/-- A formula from a basic skeleton that takes fields, and at least one. -/
def Finished (x : Skeleton × Expr) : Prop :=
  x.1 ∈ Skeleton.basics ∧ Visit.fieldIds x.2.visits ≠ []

theorem basic_records (id : String) (q : Catalog.Query) (target : List String) :
    Ensures (b.Recorded turns ids)
      (fun e b' => Visit.fieldIds e.visits ≠ [] ∧
        b.Recorded turns (ids ++ Visit.fieldIds e.visits) b')
      (Lacking (b.Recorded turns ids)) (basic c id q target) := by
  unfold basic
  refine Ensures.bind (P := fun _ => b.Recorded turns ids) (fun _ recorded => recorded)
    fun now => ?_
  dsimp only
  split
  · exact .throw fun b' recorded _ => recorded
  · refine (Bench.Recorded.drifts.pick _).bind fun op => .assume fun member => ?_
    have suits := suits_of_mem_compatible (List.mem_of_mem_filter member)
    refine (pickFields_records op.inputs [] ids).bind fun es => ?_
    refine Ensures.bind (Drifts.windowFor ?_ op) fun window => .pure fun b' => ?_
    · rintro b' rng ⟨new, leaves, length, recorded⟩
      exact ⟨new, leaves, length, Bench.Recorded.drifts _ rng recorded⟩
    rintro ⟨new, rfl, length, recorded⟩
    have fields : Visit.fieldIds (Expr.apply op.id (new.map Expr.field) window).visits = new := by
      simp [Expr.fieldIds_apply, List.flatMap_map, Expr.fieldIds_field]
    rw [fields]
    refine ⟨fun none => ?_, recorded⟩
    rw [none, suits.sound.slots] at length
    cases arity : op.arity <;> simp [arity, Arity.childCount] at length

theorem basicSkeleton_records (range : LiteralRange) (sub : List String → Build Expr) {s : Skeleton}
    (member : s ∈ Skeleton.basics) (target : List String) :
    Ensures (b.Recorded turns ids)
      (fun e b' => Finished (s, e) ∧ b.Recorded turns (ids ++ Visit.fieldIds e.visits) b')
      (Lacking (b.Recorded turns ids)) (skeleton c range sub s target) := by
  obtain ⟨q, plan⟩ := basics_plan s member
  unfold skeleton
  rw [plan]
  exact (basic_records s.id q target).mono (fun e b' holds => ⟨⟨member, holds.1⟩, holds.2⟩)
    fun _ _ lacking => lacking

end Basic

/-! ## Turns of the basic skeletons -/

section Turns

variable {b : Bench} {turns ids : List String} {J : Bench → Prop}
  {make : Skeleton → Build Expr}

/-- A finished sub-formula has its turn and its fields recorded; without one, nothing is. -/
def Tells (b : Bench) (turns ids : List String) : Option (Skeleton × Expr) → Bench → Prop
  | some (s, e), b' => Finished (s, e) ∧
      b.Recorded (turns ++ [s.id]) (ids ++ Visit.fieldIds e.visits) b'
  | none, b' => b.Recorded turns ids b'

theorem offer_records (failed : List String) :
    Ensures (b.Recorded turns ids)
      (fun o b' => (∀ s ∈ o, s ∈ Skeleton.basics) ∧ b.Recorded turns ids b') (Lacking J)
      (Batch.subChooser.offer failed) := by
  refine Ensures.bind (P := fun _ => b.Recorded turns ids) (fun _ recorded => recorded)
    fun now => ?_
  refine (Bench.Recorded.drifts.draw (F := fun _ => True) fun _ => trivial).bind fun id =>
    .pure fun b' holds => ⟨fun s found => ?_, holds.2⟩
  obtain ⟨id, -, found⟩ := Option.bind_eq_some_iff.1 found
  exact List.mem_of_find?_eq_some found

theorem commit_records (s : Skeleton) :
    Ensures (b.Recorded turns ids) (fun _ b' => b.Recorded (turns ++ [s.id]) ids b') (Lacking J)
      (Batch.subChooser.commit s) :=
  .modify fun _ recorded => recorded.commit s.id

variable (makes : ∀ s ∈ Skeleton.basics, ∀ ids, Ensures (b.Recorded turns ids)
  (fun e b' => Finished (s, e) ∧ b.Recorded turns (ids ++ Visit.fieldIds e.visits) b')
  (Lacking (b.Recorded turns ids)) (make s))
include makes

theorem round_records : ∀ (n : Nat) (failed : List String),
    Ensures (b.Recorded turns ids) (Tells b turns ids) (Lacking J)
      (Batch.subChooser.round make n failed)
  | 0, failed => .pure fun b' recorded => recorded
  | n + 1, failed => by
      refine (offer_records failed).bind fun offered => ?_
      cases offered with
      | none => exact .pure fun b' holds => holds.2
      | some s =>
          refine .assume fun listed => ?_
          refine (makes s (listed s rfl) ids).attempt.bind fun built => ?_
          cases built with
          | none => exact round_records n (s.id :: failed)
          | some e =>
              refine .assume fun finished => (commit_records s).bind fun _ => ?_
              refine .pure fun b' recorded => ?_
              exact ⟨finished, recorded⟩

theorem rounds_records (size : Nat) : ∀ n : Nat,
    Ensures (b.Recorded turns ids) (Tells b turns ids) (Lacking J)
      (Batch.subChooser.rounds make size n)
  | 0 => .pure fun b' recorded => recorded
  | n + 1 => by
      refine (round_records makes size []).bind fun built => ?_
      cases built with
      | none => exact rounds_records size n
      | some built => exact .pure fun b' tells => tells

end Turns

/-! ## Sub-formulas -/

variable (c) in
/-- A sub-formula of a batch, with the basic skeleton that it was drawn from. -/
def subBuild (range : LiteralRange) (target : List String) : Build (Skeleton × Expr) :=
  Batch.subChooser.build Skeleton.basics (fun s => skeleton c range noSub s target) target

theorem subFormula_eq (range : LiteralRange) :
    subFormula c range Batch.subChooser = fun target => Prod.snd <$> subBuild c range target :=
  rfl

variable {b : Bench} {turns ids : List String} {J : Bench → Prop}

theorem subBuild_records (range : LiteralRange) (target : List String) :
    Ensures (b.Recorded turns ids) (fun x => Tells b turns ids (some x))
      (Lacking (b.Recorded turns ids)) (subBuild c range target) := by
  refine (rounds_records (fun s member ids => basicSkeleton_records range noSub member target)
    Skeleton.basics.length Chooser.maxRounds).bind fun built => ?_
  cases built with
  | none => exact .throw fun b' recorded _ => recorded
  | some built => exact .pure fun b' tells => tells

/-! ## Shapes -/

/-- The turns of sub-formulas, and their fields, in the order in which they were finished. -/
def turnsOf (finished : List (Skeleton × Expr)) : List String :=
  finished.map fun x => x.1.id

def fieldsOf (finished : List (Skeleton × Expr)) : List String :=
  finished.flatMap fun x => Visit.fieldIds x.2.visits

/-- Finished sub-formulas are what was recorded; a formula that was built from them has their
fields. -/
structure Accounted (b : Bench) (turns ids : List String)
    (out : List (Skeleton × Expr) × Option Expr) (b' : Bench) : Prop where
  finished : ∀ x ∈ out.1, Finished x
  fields : ∀ e ∈ out.2, Visit.fieldIds e.visits = fieldsOf out.1
  recorded : b.Recorded (turns ++ turnsOf out.1) (ids ++ fieldsOf out.1) b'

theorem Accounted.drifts {out : List (Skeleton × Expr) × Option Expr} :
    Drifts (Accounted b turns ids out) :=
  fun _ rng accounted => ⟨accounted.finished, accounted.fields,
    Bench.Recorded.drifts _ rng accounted.recorded⟩

theorem accounted_nil {b' : Bench} (recorded : b.Recorded turns ids b') {o : Option Expr}
    (fields : ∀ e ∈ o, Visit.fieldIds e.visits = []) : Accounted b turns ids ([], o) b' where
  finished := by simp
  fields := fields
  recorded := by simpa [turnsOf, fieldsOf] using recorded

theorem Accounted.append {done later : List (Skeleton × Expr)} {o o' : Option Expr} {b' : Bench}
    (rest : Accounted b (turns ++ turnsOf done) (ids ++ fieldsOf done) (later, o) b')
    (first : ∀ x ∈ done, Finished x)
    (fields : ∀ e ∈ o', Visit.fieldIds e.visits = fieldsOf (done ++ later)) :
    Accounted b turns ids (done ++ later, o') b' where
  finished := List.forall_mem_append.2 ⟨first, rest.finished⟩
  fields := fields
  recorded := by simpa [turnsOf, fieldsOf] using rest.recorded

theorem literal_accounted (id : String) (value : Float) (slot : List String) :
    Ensures (b.Recorded turns ids) (Accounted b turns ids) (Lacking J)
      (do return ([], ← attempt (literal id value slot))) := by
  refine (literal_ensures id value slot).attempt.bind fun o => .pure fun b' holds => ?_
  cases o with
  | none => exact accounted_nil holds (by simp)
  | some e => exact accounted_nil holds.2 (by rintro _ ⟨⟩; exact holds.1)

theorem shapeLog_accounted (range : LiteralRange) (id : String) (weight : Float) :
    ∀ (body : Shape) (target turns ids : List String),
      Ensures (b.Recorded turns ids) (Accounted b turns ids) (Lacking J)
        (shapeLog c id weight (subBuild c range) body target) := by
  intro body
  induction body with
  | sub =>
      intro target turns ids
      unfold shapeLog
      refine (subBuild_records range target).attempt.bind fun built => .pure fun b' holds => ?_
      cases built with
      | none => exact accounted_nil holds (by simp)
      | some built =>
          refine ⟨by simpa using holds.1, ?_, by simpa [turnsOf, fieldsOf] using holds.2⟩
          rintro _ ⟨⟩
          simp [fieldsOf]
  | weight => exact fun target turns ids => literal_accounted id weight target
  | complement => exact fun target turns ids => literal_accounted id _ target
  | wrap q inner ih =>
      intro target turns ids
      unfold shapeLog
      refine (Bench.Recorded.drifts.pickOperator id q target).attempt.bind fun picked => ?_
      cases picked with
      | none => exact .pure fun b' recorded => accounted_nil recorded (by simp)
      | some op =>
          refine .assume fun _ => (ih (op.slot 0) turns ids).bind ?_
          rintro ⟨done, _ | child⟩
          · exact .pure fun b' accounted => accounted
          · refine (Accounted.drifts.windowFor op).bind fun window => .pure fun b' accounted => ?_
            refine ⟨accounted.finished, ?_, accounted.recorded⟩
            rintro _ ⟨⟩
            simpa [Expr.fieldIds_apply] using accounted.fields child rfl
  | join q left right ihLeft ihRight =>
      intro target turns ids
      unfold shapeLog
      refine (Bench.Recorded.drifts.pickOperator id q target).attempt.bind fun picked => ?_
      cases picked with
      | none => exact .pure fun b' recorded => accounted_nil recorded (by simp)
      | some op =>
          refine .assume fun _ => (ihLeft (op.slot 0) turns ids).bind ?_
          rintro ⟨done, _ | first⟩
          · exact .pure fun b' accounted => accounted
          intro b' accounted
          have firstFields := accounted.fields first rfl
          refine Ensures.bind (ihRight (op.slot 1) _ _) ?_ b' accounted.recorded
          rintro ⟨later, _ | second⟩
          · exact .pure fun b' rest => rest.append accounted.finished (by simp)
          · refine (Accounted.drifts.windowFor op).bind fun window => .pure fun b' rest => ?_
            refine rest.append accounted.finished ?_
            rintro _ ⟨⟩
            simp [Expr.fieldIds_apply, firstFields, rest.fields second rfl, fieldsOf]

theorem skeletonLog_accounted (range : LiteralRange) {s : Skeleton} (creative : s.tier = .creative)
    (target : List String) :
    Ensures (b.Recorded turns ids) (Accounted b turns ids) (Lacking J)
      (skeletonLog c (subBuild c range) range s target) := by
  unfold skeletonLog
  unfold Skeleton.tier at creative
  cases plan : s.plan with
  | basic q =>
      rw [plan] at creative
      cases creative
  | combined body => exact shapeLog_accounted range s.id 0 body target turns ids
  | blended body =>
      have drawn : Ensures (b.Recorded turns ids) (fun _ => b.Recorded turns ids) (Lacking J)
          (blendWeight range) :=
        (Bench.Recorded.drifts.draw (F := fun _ => True) fun _ => trivial).bind fun _ =>
          .pure fun b' holds => holds.2
      exact drawn.bind fun weight => shapeLog_accounted range s.id weight body target turns ids

/-- An attempt at a skeleton of a batch, by its log. -/
theorem exists_skeletonLog (range : LiteralRange) {s : Skeleton} {target : List String}
    {b b' : Bench} {o : Option Expr}
    (tried : attempt (skeleton c range (subFormula c range Batch.subChooser) s target) b =
      .ok o b') :
    ∃ finished, skeletonLog c (subBuild c range) range s target b = .ok (finished, o) b' := by
  rw [subFormula_eq, ← skeletonLog_snd] at tried
  change EStateM.map Prod.snd (skeletonLog c (subBuild c range) range s target) b = _ at tried
  unfold EStateM.map at tried
  cases result : skeletonLog c (subBuild c range) range s target b with
  | error fault b'' =>
      rw [result] at tried
      cases tried
  | ok out b'' =>
      rw [result] at tried
      cases tried
      exact ⟨out.1, rfl⟩

/-- Whichever skeleton was tried, the picks of an attempt are the fields of its formula or, if it
was abandoned, those of the sub-formulas that it finished. -/
theorem attempt_records (range : LiteralRange) {s : Skeleton} {target : List String}
    {b b' : Bench} {o : Option Expr}
    (tried : attempt (skeleton c range (subFormula c range Batch.subChooser) s target) b =
      .ok o b') :
    ∃ finished, skeletonLog c (subBuild c range) range s target b = .ok (finished, o) b' ∧
      b.Recorded (turnsOf finished)
        (o.elim (fieldsOf finished) fun e => Visit.fieldIds e.visits) b' := by
  obtain ⟨finished, logged⟩ := exists_skeletonLog range tried
  refine ⟨finished, logged, ?_⟩
  by_cases creative : s.tier = .creative
  · have accounted := (skeletonLog_accounted (J := fun _ => True) range creative target).of_ok
      (.refl b) logged
    cases o with
    | none => exact accounted.recorded
    | some e =>
        rw [Option.elim_some, accounted.fields e rfl]
        exact accounted.recorded
  · -- A basic skeleton finishes no sub-formula, and picks fields only if it is built.
    obtain ⟨q, plan⟩ : ∃ q, s.plan = .basic q := by
      unfold Skeleton.tier at creative
      cases plan : s.plan with
      | basic q => exact ⟨q, rfl⟩
      | combined body => simp [plan] at creative
      | blended body => simp [plan] at creative
    unfold skeleton at tried
    unfold skeletonLog at logged
    rw [plan] at tried logged
    dsimp only at tried logged
    rw [bind_of_ok tried] at logged
    cases logged
    have recorded := ((basic_records s.id q target).attempt (K := fun _ => True)).of_ok (.refl b)
      tried
    cases o with
    | none => exact recorded
    | some e => exact recorded.2

/-- What an attempt at a creative skeleton of a batch leaves behind, on any bench.  Whether it ends
in a formula or is abandoned, the turns of the sub-formulas that it finished and the fields in them
are recorded, in this order, and nothing else; a formula has exactly these fields.  So an abandoned
attempt leaves the picker as it was, and the turns of the basic skeletons, exactly if it finished no
sub-formula. -/
theorem attempt_leaves (range : LiteralRange) {s : Skeleton} (creative : s.tier = .creative)
    (target : List String) {b b' : Bench} {o : Option Expr}
    (tried : attempt (skeleton c range (subFormula c range Batch.subChooser) s target) b =
      .ok o b') :
    ∃ finished, skeletonLog c (subBuild c range) range s target b = .ok (finished, o) b' ∧
      (∀ x ∈ finished, x.1 ∈ Skeleton.basics ∧ Visit.fieldIds x.2.visits ≠ []) ∧
      b'.top = b.top ∧
      b'.sub = { b.sub with history := (turnsOf finished).reverse ++ b.sub.history } ∧
      (∃ picks : List Field, picks.map Field.id = (fieldsOf finished).reverse ∧
        b'.fields = { b.fields with picked := picks ++ b.fields.picked }) ∧
      (∀ e ∈ o, Visit.fieldIds e.visits = fieldsOf finished) ∧
      (b'.fields = b.fields ↔ finished = []) ∧ (b'.sub = b.sub ↔ finished = []) := by
  obtain ⟨finished, logged⟩ := exists_skeletonLog range tried
  obtain ⟨basics, fields, recorded⟩ :=
    (skeletonLog_accounted (J := fun _ => True) range creative target).of_ok (.refl b) logged
  rw [List.nil_append, List.nil_append] at recorded
  have turns : turnsOf finished = [] ↔ finished = [] := List.map_eq_nil_iff
  have picks : fieldsOf finished = [] ↔ finished = [] := by
    rw [fieldsOf, List.flatMap_eq_nil_iff]
    refine ⟨fun none => List.eq_nil_iff_forall_not_mem.2 fun x member => ?_, by rintro rfl; simp⟩
    exact (basics x member).2 (none x member)
  exact ⟨finished, logged, basics, recorded.top, recorded.sub, recorded.fields, fields,
    recorded.fields_eq_iff.trans picks, recorded.sub_eq_iff.trans turns⟩

/-- A bench of a batch on `unfed`, before anything was built. -/
def unfedBench : Bench :=
  ({ catalog := Batch.unfed, tier := .creative, count := 1, seed := 1, cap := 3, literalRange := {},
     signal := ["real"], skeletons := Skeleton.creatives, wrapping := none } : Batch).bench

/-- A pair whose second sub-formula is not to be had, after the first was finished. -/
theorem attempt_leaves_pair : ∃ (s : Skeleton) (b' : Bench), s.tier = .creative ∧
    attempt (skeleton Batch.unfed {} (subFormula Batch.unfed {} Batch.subChooser) s ["real"])
      unfedBench = .ok none b' ∧
    ∃ finished, finished ≠ [] ∧ b'.sub.history = (turnsOf finished).reverse ∧
      b'.fields ≠ unfedBench.fields := by
  set s : Skeleton := ⟨"pair", 3, .combined Skeleton.pairShape⟩
  have pair : s.tier = .creative := rfl
  have computed : (abandoned? (skeleton Batch.unfed {} (subFormula Batch.unfed {} Batch.subChooser)
      s ["real"]) unfedBench).map (fun b' => b'.sub.history) = some ["cross_rank"] := by
    decide +kernel
  obtain ⟨b', left, turns⟩ := Option.map_eq_some_iff.1 computed
  have tried := abandoned?_eq_some.1 left
  obtain ⟨finished, -, -, -, sub, -, -, fields, same⟩ := attempt_leaves {} pair ["real"] tried
  have some_finished : finished ≠ [] := by
    intro none
    have untouched := congrArg Rotation.history (same.2 none)
    rw [turns] at untouched
    cases untouched
  refine ⟨s, b', pair, tried, finished, some_finished, ?_,
    fun kept => some_finished (fields.1 kept)⟩
  rw [sub]
  exact List.append_nil _

/-- The first attempt at the first candidate of a batch, with the picks and the turns before and
behind it: it is abandoned, and what it picked stays picked. -/
theorem abandoned_attempt_records :
    ((Generation.plan Batch.unfed "creative" 1 { seed := 2 }).result.toOption.bind fun p =>
      match p.topChooser.offer [] { p.after 0 with fields := p.picker } with
      | .ok (some s) b =>
        (abandoned? (skeleton p.catalog p.literalRange
          (subFormula p.catalog p.literalRange Batch.subChooser) s p.signal) b).map fun b' =>
            ((s.tier, b.fields.picked.map Field.id, b.sub.history),
              b'.fields.picked.map Field.id, b'.sub.history)
      | _ => none)
      = some ((.creative, [], []), ["volume"], ["cross_rank"]) := by
  decide +kernel

end Build

end AlphaFoundry
