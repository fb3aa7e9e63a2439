/-
# AlphaFoundry.Proofs.Generation.Ensures -- builds between two benches

A build is judged by what holds of the bench before it, of the bench behind its result, and of the
bench behind its fault.  From this come the two forms that most steps have: `Keeps`, for a step that
ends in a result, and `Decides`, for a build that ends in a result only if something can be built, and
lacks something only if something may be lacking.  An invariant of both is `Steady` if draws from the
stream and picks of fields keep it.
-/
import Mathlib
import AlphaFoundry.Proofs.Generation.Build

namespace AlphaFoundry

set_option autoImplicit false

namespace Build

variable {α β : Type} {I J : Bench → Prop} {P : α → Bench → Prop} {Q : β → Bench → Prop}
  {E : Fault → Bench → Prop} {F : α → Prop} {can may : Prop}

/-- What holds of a result and its bench, or of a fault and its bench. -/
def Meets (P : α → Bench → Prop) (E : Fault → Bench → Prop) :
    EStateM.Result Fault Bench α → Prop
  | .ok a b => P a b
  | .error fault b => E fault b

/-- From every bench with the first property, a build ends so. -/
def Ensures (I : Bench → Prop) (P : α → Bench → Prop) (E : Fault → Bench → Prop) (x : Build α) :
    Prop :=
  ∀ b, I b → Meets P E (x b)

/-- A build ends in a result that has the property, and the invariant is kept. -/
def Keeps (I : Bench → Prop) (F : α → Prop) (x : Build α) : Prop :=
  Ensures I (fun a b => F a ∧ I b) (fun _ _ => False) x

/-- A build ends in a result only if it can, and for lack of something only if it may.  Either way
the invariant is kept. -/
def Decides (I : Bench → Prop) (can may : Prop) (x : Build α) : Prop :=
  Ensures I (fun _ b => can ∧ I b) (fun fault b => fault.IsLack ∧ may ∧ I b) x

namespace Ensures

theorem pure {a : α} (holds : ∀ b, I b → P a b) : Ensures I P E (pure a) :=
  holds

theorem throw {fault : Fault} (holds : ∀ b, I b → E fault b) : Ensures I P E (throw fault) :=
  holds

theorem bind {x : Build α} {f : α → Build β} (first : Ensures I P E x)
    (rest : ∀ a, Ensures (P a) Q E (f a)) : Ensures I Q E (x >>= f) := by
  intro b holds
  have meets := first b holds
  cases result : x b with
  | ok a b' =>
      rw [result] at meets
      rw [bind_of_ok result]
      exact rest a b' meets
  | error fault b' =>
      rw [result] at meets
      rw [bind_of_error result]
      exact meets

theorem mono {P' : α → Bench → Prop} {E' : Fault → Bench → Prop} {x : Build α}
    (ensures : Ensures I P E x) (results : ∀ a b, P a b → P' a b)
    (faults : ∀ fault b, E fault b → E' fault b) : Ensures I P' E' x := by
  intro b holds
  have meets := ensures b holds
  cases result : x b with
  | ok a b' =>
      rw [result] at meets
      exact results a b' meets
  | error fault b' =>
      rw [result] at meets
      exact faults fault b' meets

theorem of_ok {x : Build α} {b b' : Bench} {a : α} (ensures : Ensures I P E x) (holds : I b)
    (ended : x b = .ok a b') : P a b' := by
  have meets := ensures b holds
  rwa [ended] at meets

theorem of_error {x : Build α} {b b' : Bench} {fault : Fault} (ensures : Ensures I P E x)
    (holds : I b) (ended : x b = .error fault b') : E fault b' := by
  have meets := ensures b holds
  rwa [ended] at meets

/-- Without faults there is a result. -/
theorem exists_ok {x : Build α} {b : Bench} (ensures : Ensures I P (fun _ _ => False) x)
    (holds : I b) : ∃ a b', x b = .ok a b' ∧ P a b' := by
  have meets := ensures b holds
  cases result : x b with
  | ok a b' =>
      rw [result] at meets
      exact ⟨a, b', rfl, meets⟩
  | error fault b' =>
      rw [result] at meets
      exact meets.elim

/-- What does not depend on the bench can be assumed of it. -/
theorem assume {x : Build α} {fact : Prop} (ensures : fact → Ensures I P E x) :
    Ensures (fun b => fact ∧ I b) P E x :=
  fun b holds => ensures holds.1 b holds.2

theorem modify {f : Bench → Bench} (holds : ∀ b, I b → J (f b)) :
    Ensures I (fun _ => J) E (modify f) :=
  holds

end Ensures

namespace Keeps

variable {x : Build α} {f : α → Build β}

/-- A step that keeps the invariant, and what comes behind it. -/
theorem andThen (keeps : Keeps I F x) (rest : ∀ a, F a → Ensures I Q E (f a)) :
    Ensures I Q E (x >>= f) :=
  (keeps.mono (fun _ _ => id) fun _ _ => False.elim).bind fun a => .assume (rest a)

theorem bind {G : β → Prop} (keeps : Keeps I F x) (rest : ∀ a, F a → Keeps I G (f a)) :
    Keeps I G (x >>= f) :=
  keeps.andThen rest

theorem pure {a : α} (holds : F a) : Keeps I F (pure a) :=
  fun _ invariant => ⟨holds, invariant⟩

theorem get : Keeps I I get :=
  fun _ holds => ⟨holds, holds⟩

end Keeps

namespace Decides

variable {x : Build α} {f : α → Build β} {can' may' : Prop}

theorem pure {a : α} (holds : can) : Decides I can may (pure a) :=
  fun _ invariant => ⟨holds, invariant⟩

theorem lacking (id : String) (lack : Lack) (holds : may) :
    Decides I can may (throw (.unavailable id lack) : Build α) :=
  fun _ invariant => ⟨trivial, holds, invariant⟩

theorem mono (decides : Decides I can may x) (results : can → can') (faults : may → may') :
    Decides I can' may' x :=
  Ensures.mono decides (fun _ _ holds => ⟨results holds.1, holds.2⟩)
    fun _ _ holds => ⟨holds.1, faults holds.2.1, holds.2.2⟩

/-- Something is built first; if it may be lacking, so may the whole. -/
theorem bind (first : Decides I can' may' x) (faults : may' → may)
    (rest : can' → ∀ a, Decides I can may (f a)) : Decides I can may (x >>= f) :=
  Ensures.bind (first.mono id faults) fun a => .assume fun holds => rest holds a

theorem after {y : Build β} {F : β → Prop} {g : β → Build α} (keeps : Keeps I F y)
    (rest : ∀ a, F a → Decides I can may (g a)) : Decides I can may (y >>= g) :=
  keeps.andThen rest

/-- An attempt tells by its result what was decided. -/
theorem attempt (decides : Decides I can may x) :
    Keeps I (fun o => (o.isSome → can) ∧ (o = none → may)) (attempt x) := by
  intro b holds
  have meets := decides b holds
  unfold Build.attempt
  cases result : x b with
  | ok a b' =>
      rw [result] at meets
      exact ⟨⟨fun _ => meets.1, nofun⟩, meets.2⟩
  | error fault b' =>
      rw [result] at meets
      obtain ⟨lacks, may, invariant⟩ := meets
      cases fault with
      | unavailable id lack => exact ⟨⟨nofun, fun _ => may⟩, invariant⟩
      | noField domains => exact lacks.elim
      | emptyList => exact lacks.elim

end Decides

/-! ## Draws and fields -/

/-- An invariant that the stream does not matter for. -/
def Drifts (I : Bench → Prop) : Prop :=
  ∀ b rng, I b → I { b with rng }

namespace Drifts

variable (drifts : Drifts I)
include drifts

theorem draw {f : Rng → α × Rng} (each : ∀ r, F (f r).1) :
    Ensures I (fun a b => F a ∧ I b) E (draw f) :=
  fun b holds => ⟨each b.rng, drifts b _ holds⟩

theorem windowFor (op : Operator) : Ensures I (fun _ => I) E (windowFor op) := by
  unfold Build.windowFor
  split
  · exact .pure fun b holds => holds
  · exact Ensures.bind (drifts.draw (F := fun _ => True) fun _ => trivial) fun w =>
      .pure fun b holds => holds.2

end Drifts

/-- An invariant of benches for a catalog that neither the stream nor the picks matter for. -/
structure Steady (c : Catalog) (I : Bench → Prop) : Prop where
  catalog : ∀ b, I b → b.fields.catalog = c
  moves : ∀ b rng fields, I b → fields.catalog = c → I { b with rng, fields }

namespace Steady

variable {c : Catalog} (steady : Steady c I)
include steady

theorem drifts : Drifts I :=
  fun b _ holds => steady.moves b _ _ holds (steady.catalog b holds)

theorem draw {f : Rng → α × Rng} (each : ∀ r, F (f r).1) : Keeps I F (draw f) :=
  steady.drifts.draw each

theorem pick {items : List α} (some_item : items ≠ []) : Keeps I (· ∈ items) (pick items) := by
  have chosen : Keeps I (fun o => ∃ a ∈ items, o = some a) (Build.draw (·.pick? items)) :=
    steady.draw fun r => r.pick?_isSome some_item
  refine chosen.bind ?_
  rintro _ ⟨a, member, rfl⟩
  exact .pure member

theorem windowFor (op : Operator) : Keeps I (fun _ => True) (windowFor op) :=
  (steady.drifts.windowFor op).mono (fun _ _ holds => ⟨trivial, holds⟩) fun _ _ => id

theorem pickField {slot : List String} (supplied : c.fieldsByDomain slot ≠ [])
    (avoid : List String) : Keeps I (fun _ => True) (pickField slot avoid) := by
  intro b holds
  have same := steady.catalog b holds
  have supplied : b.fields.canSupply slot = true := by
    simpa [FieldPicker.canSupply, same] using supplied
  obtain ⟨f, r, picked, -, -⟩ := FieldPicker.pick?_eq_some supplied avoid b.rng
  unfold Build.pickField
  rw [picked]
  exact ⟨trivial, steady.moves b _ _ holds same⟩

theorem pickFields : ∀ {slots : List (List String)} (used : List String),
    (∀ slot ∈ slots, c.fieldsByDomain slot ≠ []) → Keeps I (fun _ => True) (pickFields slots used)
  | [], _, _ => .pure trivial
  | slot :: slots, used, supplied => by
      obtain ⟨here, below⟩ := List.forall_mem_cons.1 supplied
      refine (steady.pickField here used).bind fun id _ => ?_
      exact (pickFields (id :: used) below).bind fun _ _ => .pure trivial

/-- An operator is chosen, and something built for it; without one, something may be lacking. -/
theorem pickOperator (id : String) {q : Catalog.Query} {target : List String}
    {f : Operator → Build β} (none : c.compatible { q with output := some target } = [] → may)
    (rest : ∀ op ∈ c.compatible { q with output := some target }, Decides I can may (f op)) :
    Decides I can may (pickOperator c id q target >>= f) := by
  unfold Build.pickOperator
  split
  · rename_i nothing
    exact (Decides.lacking id _ nothing).bind none False.elim
  · exact .after (steady.pick (by assumption)) rest

end Steady

end Build

end AlphaFoundry
