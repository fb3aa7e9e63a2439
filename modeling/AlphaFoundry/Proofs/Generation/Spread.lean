/-
# AlphaFoundry.Proofs.Generation.Spread -- fields are repeated only when there is no other

A picker goes beyond its cap only where every field of the wanted domains is at it.  A formula that
references a field more often than its picker's cap therefore has a place for that field where no
field was left.  The law counts what was picked, which is more than what is referenced if a build
was abandoned on the way; it is kept by each step of a build, and holds of the formula that each
candidate of a batch is made from.
-/
import Mathlib
import AlphaFoundry.Proofs.Expr.Usage
import AlphaFoundry.Proofs.Generation.Batch
import AlphaFoundry.Proofs.Generation.Picks

namespace AlphaFoundry

set_option autoImplicit false

namespace Build

variable {c : Catalog} {p q r : FieldPicker} {slot : List String} {e : Expr}

/-! ## Formulas and their picks -/

/-- A formula for a slot has a place with the field, and every field that the place accepts was
picked as often as the cap allows. -/
inductive Spent (c : Catalog) (p : FieldPicker) (id : String) : List String → Expr → Prop
  | here {slot : List String} (all : ∀ g ∈ c.fieldsByDomain slot, p.cap ≤ p.timesPicked g.id) :
      Spent c p id slot (.field id)
  | deeper {slot : List String} {operator : String} {es : List Expr} {window : Option Float}
      {op : Operator} {i : Nat} {child : Expr} (known : c.operator? operator = some op)
      (at_i : es[i]? = some child) (inside : Spent c p id (op.slot i) child) :
      Spent c p id slot (.apply operator es window)

theorem Spent.mono {id : String} (spent : Spent c p id slot e) (extended : p.Extends q) :
    Spent c q id slot e := by
  induction spent with
  | here all =>
      refine .here fun g listed => ?_
      rw [extended.cap]
      exact (all g listed).trans (extended.timesPicked_le g.id)
  | deeper known at_i _ ih => exact .deeper known at_i ih

/-- Its place by the path of the node above. -/
theorem Spent.exists_place {id : String} (spent : Spent c p id slot e) : 
    (e = .field id) ∨ ∃ path operator children window op i,
      e.nodeAt? path = some (.apply operator children window) ∧
      children[i]? = some (.field id) ∧ c.operator? operator = some op ∧
      ∀ g ∈ c.fieldsByDomain (op.slot i), p.cap ≤ p.timesPicked g.id := by
  induction spent with
  | here all => exact .inl rfl
  | @deeper _ operator es window op i child known at_i inside ih =>
      right
      rcases ih with rfl | ⟨path, operator', children, window', op', j, found, at_j, known', all⟩
      · cases inside with
        | here all => exact ⟨[], operator, es, window, op, i, rfl, at_i, known, all⟩
      · refine ⟨i :: path, operator', children, window', op', j, ?_, at_j, known', all⟩
        rw [Expr.nodeAt?_cons]
        show es[i]?.bind (·.nodeAt? path) = _
        rw [at_i]
        exact found

/-- What formulas, each for its slot, have of the picks between two pickers: no more references than
picks, and beyond the cap only where nothing was left. -/
structure SpreadAll (c : Catalog) (slot : Nat → List String) (p q : FieldPicker)
    (es : List Expr) : Prop where
  uses : ∀ id, p.timesPicked id + (es.map (Expr.uses id)).sum ≤ q.timesPicked id
  spent : ∀ id, 0 < (es.map (Expr.uses id)).sum →
    p.cap < p.timesPicked id + (es.map (Expr.uses id)).sum →
      ∃ i child, es[i]? = some child ∧ Spent c q id (slot i) child

/-- The same of one formula. -/
def Spread (c : Catalog) (slot : List String) (p q : FieldPicker) (e : Expr) : Prop :=
  SpreadAll c (fun _ => slot) p q [e]

theorem spread_iff : Spread c slot p q e ↔
    (∀ id, p.timesPicked id + e.uses id ≤ q.timesPicked id) ∧
    ∀ id, 0 < e.uses id → p.cap < p.timesPicked id + e.uses id → Spent c q id slot e := by
  have one (id : String) : ([e].map (Expr.uses id)).sum = e.uses id := by simp
  constructor
  · rintro ⟨uses, spent⟩
    simp only [one] at uses spent
    refine ⟨uses, fun id positive beyond => ?_⟩
    obtain ⟨i, child, at_i, holds⟩ := spent id positive beyond
    obtain ⟨-, rfl⟩ : i = 0 ∧ e = child := by simpa [List.getElem?_singleton] using at_i
    exact holds
  · rintro ⟨uses, spent⟩
    constructor
    · simpa only [one] using uses
    · intro id positive beyond
      rw [one] at positive beyond
      exact ⟨0, e, rfl, spent id positive beyond⟩

theorem spreadAll_nil {slot : Nat → List String} (extended : p.Extends q) :
    SpreadAll c slot p q [] where
  uses := extended.timesPicked_le
  spent _ positive := absurd positive (lt_irrefl 0)

/-- One formula, and others behind it. -/
theorem Spread.cons {slot : Nat → List String} {es : List Expr} (first : Spread c (slot 0) p q e)
    (extended : p.Extends q) (later : q.Extends r)
    (rest : SpreadAll c (fun i => slot (i + 1)) q r es) : SpreadAll c slot p r (e :: es) := by
  obtain ⟨uses, spent⟩ := spread_iff.1 first
  constructor
  · intro id
    have := uses id
    have := rest.uses id
    rw [List.map_cons, List.sum_cons]
    omega
  · intro id positive beyond
    have used := uses id
    rw [List.map_cons, List.sum_cons] at positive beyond
    -- If the others have the field, they are beyond the cap themselves.
    by_cases others : 0 < (es.map (Expr.uses id)).sum
    · obtain ⟨i, child, at_i, holds⟩ :=
        rest.spent id others (by rw [extended.cap]; omega)
      exact ⟨i + 1, child, at_i, holds⟩
    · have holds := spent id (by omega) (by omega)
      exact ⟨0, e, rfl, holds.mono later⟩

/-- Picks before and after do not matter. -/
theorem Spread.widen {p' q' : FieldPicker} (spread : Spread c slot p q e) (before : p'.Extends p)
    (after : q.Extends q') : Spread c slot p' q' e := by
  obtain ⟨uses, spent⟩ := spread_iff.1 spread
  refine spread_iff.2 ⟨fun id => ?_, fun id positive beyond => ?_⟩
  · have := uses id
    have := before.timesPicked_le id
    have := after.timesPicked_le id
    omega
  · have := before.timesPicked_le id
    exact (spent id positive (by rw [before.cap]; omega)).mono after

theorem SpreadAll.apply {operator : String} {op : Operator} {es : List Expr}
    (known : c.operator? operator = some op) (all : SpreadAll c op.slot p q es)
    (window : Option Float) (slot : List String) :
    Spread c slot p q (.apply operator es window) := by
  refine spread_iff.2 ⟨fun id => ?_, fun id positive beyond => ?_⟩
  · rw [Expr.uses_apply]
    exact all.uses id
  · rw [Expr.uses_apply] at positive beyond
    obtain ⟨i, child, at_i, holds⟩ := all.spent id positive beyond
    exact .deeper known at_i holds

theorem spread_literal (value : Float) (slot : List String) :
    Spread c slot p p (.literal value) := by
  refine spread_iff.2 ⟨fun id => ?_, fun id positive => ?_⟩
  · rw [Expr.uses_literal]
    exact le_rfl
  · rw [Expr.uses_literal] at positive
    cases positive

theorem spread_field {avoid : List String} {f : Field} (same : p.catalog = c)
    (member : f ∈ p.pool slot avoid) :
    Spread c slot p { p with picked := f :: p.picked } (.field f.id) := by
  refine spread_iff.2 ⟨fun id => ?_, fun id positive beyond => ?_⟩
  · rw [FieldPicker.timesPicked_pick, Expr.uses_field]
  · rw [Expr.uses_field] at positive beyond
    split at positive
    swap
    · cases positive
    rename_i referenced
    subst referenced
    rw [if_pos rfl] at beyond
    refine (Spent.here (p := p) fun g listed => ?_).mono (FieldPicker.extends_pick p f)
    rw [← same] at listed
    exact FieldPicker.spent_of_mem_pool member (by omega) g listed

/-! ## Builds of formulas -/

namespace Tracks

variable {target : List String}

theorem pickField (same : p.catalog = c) (avoid : List String) :
    Tracks p (fun id q => Spread c slot p q (.field id)) (pickField slot avoid) := by
  rintro b rfl
  unfold Build.pickField FieldPicker.pick?
  dsimp only
  split
  · rename_i f fields rng picked
    split at picked
    · cases picked
    · obtain ⟨chosen, -⟩ := Prod.mk.inj picked
      obtain ⟨f, drawn, made⟩ := Option.map_eq_some_iff.1 chosen
      obtain ⟨rfl, rfl⟩ := Prod.mk.inj made
      exact ⟨FieldPicker.extends_pick _ f,
        spread_field same (List.mem_of_getElem? drawn)⟩
  · exact FieldPicker.Extends.refl _

theorem pickFields : ∀ {slots : List (List String)} {p : FieldPicker} (used : List String),
    p.catalog = c → Tracks p (fun es q => SpreadAll c (fun i => slots.getD i []) p q es)
      (pickFields slots used)
  | [], p, used, same => .pure (spreadAll_nil (.refl p))
  | slot :: slots, p, used, same => by
      refine (pickField same used).bind fun id q extended first => ?_
      refine (pickFields (id :: used) (extended.catalog.trans same)).bind fun es r later rest => ?_
      have all : SpreadAll c (fun i => (slot :: slots).getD i []) p r (.field id :: es) :=
        first.cons extended later rest
      exact .pure all

/-- The node that is put above arguments when they are built. -/
theorem apply {op : Operator} {es : List Expr} (known : c.operator? op.id = some op)
    (all : SpreadAll c op.slot p q es) :
    Tracks q (fun e r => Spread c target p r e)
      (do return .apply op.id es (← Build.windowFor op)) := by
  refine (windowFor op).bind_still fun window _ => ?_
  exact .pure (all.apply known window target)

theorem basic (same : p.catalog = c) (id : String) (query : Catalog.Query) :
    Tracks p (fun e q => Spread c target p q e) (basic c id query target) := by
  unfold Build.basic
  refine get.bind_still fun b _ => ?_
  dsimp only
  split
  · exact .throw _
  · refine (pick _).bind_still fun op member => ?_
    have listed := (List.mem_filter.1 (List.mem_filter.1 member).1).1
    have known : c.operator? op.id = some op := Catalog.operator?_eq_some.2 ⟨listed, rfl⟩
    refine (pickFields [] same).bind fun es q _ all => ?_
    exact apply known all

theorem literal (id : String) (value : Float) :
    Tracks p (fun e q => Spread c target p q e) (literal id value target) := by
  unfold Build.literal
  split
  · exact .pure (spread_literal value target)
  · exact .throw _

/-- Whatever spreads the fields of sub-formulas, does so for a shape made of them. -/
theorem shape (id : String) (weight : Float) {sub : List String → Build Expr}
    (subs : ∀ target p, p.catalog = c →
      Tracks p (fun e q => Spread c target p q e) (sub target)) (body : Shape) :
    ∀ (target : List String) (p : FieldPicker), p.catalog = c →
      Tracks p (fun e q => Spread c target p q e) (shape c id weight sub body target) := by
  induction body with
  | sub => exact subs
  | weight => exact fun target p _ => literal id weight
  | complement => exact fun target p _ => literal id _
  | wrap query inner ih =>
      intro target p same
      refine (pickOperator c id query target).bind_still fun op known => ?_
      refine (ih (op.slot 0) p same).bind fun e q extended first => ?_
      exact apply known (first.cons extended (.refl q) (spreadAll_nil (.refl q)))
  | join query left right ihl ihr =>
      intro target p same
      refine (pickOperator c id query target).bind_still fun op known => ?_
      refine (ihl (op.slot 0) p same).bind fun e q extended first => ?_
      refine (ihr (op.slot 1) q (extended.catalog.trans same)).bind fun e' r later second => ?_
      have rest : SpreadAll c (fun i => op.slot (i + 1)) q r [e'] :=
        second.cons later (.refl r) (spreadAll_nil (.refl r))
      exact apply known (first.cons extended later rest)

theorem skeleton (range : LiteralRange) {sub : List String → Build Expr}
    (subs : ∀ target p, p.catalog = c →
      Tracks p (fun e q => Spread c target p q e) (sub target)) (s : Skeleton)
    (target : List String) (p : FieldPicker) (same : p.catalog = c) :
    Tracks p (fun e q => Spread c target p q e) (skeleton c range sub s target) := by
  unfold Build.skeleton
  split
  · exact basic same s.id _
  · exact shape s.id 0 subs _ target p same
  · have weighed : Tracks p (Still p fun _ => True) (blendWeight range) :=
      bind_still (P := fun _ => True) (.draw fun _ => trivial) fun _ _ => .pure ⟨rfl, trivial⟩
    exact weighed.bind_still fun weight _ => shape s.id weight subs _ target p same

end Tracks

/-! ## Skeletons in turn -/

namespace Chooser

/-- Choosing picks no field. -/
structure Quiet (chooser : Chooser) : Prop where
  offer : ∀ failed p, Tracks p (Still p fun _ => True) (chooser.offer failed)
  commit : ∀ s p, Tracks p (Still p fun _ => True) (chooser.commit s)

theorem rotating_quiet (skeletons : List Skeleton) {rotation : Bench → Rotation Rat}
    {put : Rotation Rat → Bench → Bench} (keeps : ∀ rot b, (put rot b).fields = b.fields) :
    (rotating skeletons rotation put).Quiet where
  offer failed p := by
    refine Tracks.get.bind_still fun b _ => ?_
    exact Tracks.bind_still (P := fun _ => True) (.draw fun _ => trivial) fun _ _ =>
      .pure ⟨rfl, trivial⟩
  commit s p := .modify fun b => keeps _ b

variable {chooser : Chooser} {make : Skeleton → Build Expr} {target : List String}

theorem Quiet.fields_of_offer (quiet : chooser.Quiet) {failed : List String}
    {o : Option Skeleton} {b b' : Bench}
    (offered : chooser.offer failed b = .ok o b') : b'.fields = b.fields := by
  have tracked := quiet.offer failed b.fields b rfl
  rw [offered] at tracked
  exact tracked.2.1

theorem Quiet.fields_of_commit (quiet : chooser.Quiet) {s : Skeleton} {b b' : Bench}
    (committed : chooser.commit s b = .ok () b') : b'.fields = b.fields := by
  have tracked := quiet.commit s b.fields b rfl
  rw [committed] at tracked
  exact tracked.2.1

theorem round_tracks (quiet : chooser.Quiet)
    (makes : ∀ s p, p.catalog = c → Tracks p (fun e q => Spread c target p q e) (make s)) :
    ∀ (n : Nat) (failed : List String) (p : FieldPicker), p.catalog = c →
      Tracks p (fun o q => ∀ built ∈ o, Spread c target p q built.2)
        (chooser.round make n failed) := by
  intro n
  induction n with
  | zero => exact fun _ _ _ => .pure (by simp)
  | succ n ih =>
      intro failed p same
      refine (quiet.offer failed p).bind_still fun offered _ => ?_
      cases offered with
      | none => exact .pure (by simp)
      | some s =>
          refine (makes s p same).attempt.bind fun result q extended spread => ?_
          cases result with
          | none =>
              -- What the abandoned build picked stays picked, and counts against the next one.
              refine (ih (s.id :: failed) q (extended.catalog.trans same)).mono ?_
              exact fun o r _ later built made => (later built made).widen extended (.refl r)
          | some e =>
              refine (quiet.commit s q).bind ?_
              rintro _ r - ⟨rfl, -⟩
              refine .pure ?_
              rintro _ ⟨⟩
              exact spread e rfl

theorem rounds_tracks (quiet : chooser.Quiet)
    (makes : ∀ s p, p.catalog = c → Tracks p (fun e q => Spread c target p q e) (make s))
    (size : Nat) : ∀ (n : Nat) (p : FieldPicker), p.catalog = c →
      Tracks p (fun o q => ∀ built ∈ o, Spread c target p q built.2)
        (chooser.rounds make size n) := by
  intro n
  induction n with
  | zero => exact fun _ _ => .pure (by simp)
  | succ n ih =>
      intro p same
      refine (round_tracks quiet makes size [] p same).bind fun result q extended spread => ?_
      cases result with
      | some built => exact .pure spread
      | none =>
          refine (ih q (extended.catalog.trans same)).mono fun o r _ later built made => ?_
          exact (later built made).widen extended (.refl r)

theorem build_tracks (quiet : chooser.Quiet)
    (makes : ∀ s p, p.catalog = c → Tracks p (fun e q => Spread c target p q e) (make s))
    (skeletons : List Skeleton) (p : FieldPicker) (same : p.catalog = c) :
    Tracks p (fun built q => Spread c target p q built.2)
      (chooser.build skeletons make target) := by
  refine (rounds_tracks quiet makes skeletons.length maxRounds p same).bind ?_
  intro result q _ spread
  cases result with
  | none => exact .throw _
  | some built => exact .pure (spread built rfl)

end Chooser

theorem subFormula_tracks (range : LiteralRange) {chooser : Chooser} (quiet : chooser.Quiet)
    (target : List String) (p : FieldPicker) (same : p.catalog = c) :
    Tracks p (fun e q => Spread c target p q e) (subFormula c range chooser target) := by
  have none : ∀ target p, p.catalog = c →
      Tracks p (fun e q => Spread c target p q e) (noSub target) := fun _ _ _ => .throw _
  refine (Chooser.build_tracks quiet (fun s => Tracks.skeleton range none s target)
    Skeleton.basics p same).bind fun built q _ spread => ?_
  exact .pure spread

end Build

/-! ## The candidates of a batch -/

namespace Batch

open Build Generation

variable {p : Batch}

/-- The picker that a candidate begins with. -/
def picker (p : Batch) : FieldPicker where
  catalog := p.catalog
  cap := p.cap

/-- The bench behind the first candidates. -/
def after (p : Batch) : Nat → Bench
  | 0 => p.bench
  | n + 1 =>
    match p.buildInner (p.after n) with
    | .ok _ b => b
    | .error _ b => b

theorem topChooser_quiet : p.topChooser.Quiet :=
  Chooser.rotating_quiet _ fun _ _ => rfl

theorem buildInner_spread {b b' : Bench} {s : Skeleton} {inner : Expr}
    (built : p.buildInner b = .ok (s, inner) b') :
    p.picker.Extends b'.fields ∧ Spread p.catalog p.signal p.picker b'.fields inner := by
  have sub : subChooser.Quiet := Chooser.rotating_quiet _ fun _ _ => rfl
  have subs := subFormula_tracks (c := p.catalog) p.literalRange sub
  have tracks := Chooser.build_tracks (topChooser_quiet (p := p))
    (fun s => Tracks.skeleton p.literalRange subs s p.signal) p.skeletons p.picker rfl
  have tracked := tracks { b with fields := p.picker } rfl
  rw [show p.topChooser.build p.skeletons _ p.signal { b with fields := p.picker }
    = .ok (s, inner) b' from built] at tracked
  exact tracked

/-- A candidate is built from the bench behind those before it. -/
theorem getElem?_yieldFrom {k : Candidate} : ∀ (n number i : Nat) (done : Nat),
    (p.yieldFrom n number (p.after done)).candidates[i]? = some k →
      ∃ s inner, p.buildInner (p.after (done + i)) = .ok (s, inner) (p.after (done + i + 1)) ∧
        k = p.candidate (number + i) s.id inner
  | 0, _, _, _, yielded => by cases yielded
  | n + 1, number, i, done, yielded => by
      rw [yieldFrom] at yielded
      have next : p.after (done + 1) = match p.buildInner (p.after done) with
        | .ok _ b => b
        | .error _ b => b := rfl
      cases result : p.buildInner (p.after done) with
      | error fault b' =>
          rw [result] at yielded
          cases yielded
      | ok built b' =>
          rw [result] at yielded next
          obtain ⟨s, inner⟩ := built
          dsimp only at yielded next
          rw [← next] at yielded result
          cases i with
          | zero => exact ⟨s, inner, result, (Option.some.inj yielded).symm⟩
          | succ i =>
              obtain ⟨s, inner, built, made⟩ := getElem?_yieldFrom n (number + 1) i (done + 1) yielded
              have shift : done + 1 + i = done + (i + 1) := by omega
              rw [shift] at built
              exact ⟨s, inner, built, by rw [made, Nat.add_right_comm, Nat.add_assoc]⟩

/-- Above the formula that was built, there is at most one more reference, to the group. -/
theorem candidate_uses (number : Nat) (skeletonId : String) (inner : Expr) (id : String) :
    (p.candidate number skeletonId inner).root.uses id
      = inner.uses id + if p.wrapping.map Wrapping.group = some id then 1 else 0 := by
  unfold candidate
  cases p.wrapping with
  | none => rfl
  | some w =>
      show (w.wrap inner).uses id = _
      unfold Wrapping.wrap
      simp [Expr.uses_apply, Expr.uses_field]

/-- A catalog with an operator whose second argument no field can be. -/
def unfed : Catalog :=
  ⟨{ domains := ["real", "odd"]
     fields := [⟨"close", "price", "real", none⟩, ⟨"volume", "volume", "real", none⟩]
     operators := [
      { id := "rank", category := .crossSectional, arity := .unary, inputs := [["real"]],
        output := "real", template := "rank(\x7b0\x7d)" },
      { id := "add", category := .arithmetic, arity := .binary, inputs := [["real"], ["real"]],
        output := "real", template := "\x7b0\x7d + \x7b1\x7d" },
      { id := "mix", category := .arithmetic, arity := .binary, inputs := [["real"], ["odd"]],
        output := "real", template := "mix(\x7b0\x7d, \x7b1\x7d)" }] },
    by decide +kernel⟩

end Batch

end AlphaFoundry
