/-
# AlphaFoundry.Proofs.Generation.Build -- what builds deliver

A build ends in a result or finds something lacking; there is no third case on a checked catalog,
whatever the stream and the bench.  `Delivers` says this together with a property of the result,
and has one rule for each step of a build.  A formula `Fills` a shape for a target if it is typed,
produces a domain of the target, and has the depth and the leaves of the shape.  By induction on
the shape, that is what builds deliver.
-/
import Mathlib
import AlphaFoundry.Proofs.Generation.Weight
import AlphaFoundry.Proofs.Validation.Typing

namespace AlphaFoundry

set_option autoImplicit false

namespace Build

/-! ## Builds and their results -/

/-- The catalog has nothing for a slot. -/
def Fault.IsLack : Fault → Prop
  | .unavailable .. => True
  | _ => False

variable {α β : Type} {c : Catalog} {P : α → Prop} {Q : β → Prop}

section Steps

variable {x : Build α} {f : α → Build β} {a : α} {fault : Fault} {b b' : Bench}

theorem bind_of_ok (ended : x b = .ok a b') : (x >>= f) b = f a b' := by
  show EStateM.bind x f b = f a b'
  unfold EStateM.bind
  rw [ended]

theorem bind_of_error (ended : x b = .error fault b') : (x >>= f) b = .error fault b' := by
  show EStateM.bind x f b = .error fault b'
  unfold EStateM.bind
  rw [ended]

theorem attempt_of_ok (ended : x b = .ok a b') : attempt x b = .ok (some a) b' := by
  unfold attempt
  rw [ended]

theorem attempt_of_lack {id : String} {lack : Lack}
    (ended : x b = .error (.unavailable id lack) b') : attempt x b = .ok none b' := by
  unfold attempt
  rw [ended]

theorem attempt_of_foreign (ended : x b = .error fault b') (foreign : ¬fault.IsLack) :
    attempt x b = .error fault b' := by
  unfold attempt
  rw [ended]
  cases fault with
  | unavailable id lack => exact absurd trivial foreign
  | noField domains => rfl
  | emptyList => rfl

/-- An attempt that ends ended in a result or in a lack. -/
theorem attempt_cases {o : Option α} (ended : attempt x b = .ok o b') :
    (∃ a, o = some a ∧ x b = .ok a b') ∨
    (o = none ∧ ∃ fault, x b = .error fault b' ∧ fault.IsLack) := by
  unfold attempt at ended
  cases result : x b with
  | ok a b'' =>
      rw [result] at ended
      cases ended
      exact .inl ⟨a, rfl, rfl⟩
  | error fault b'' =>
      rw [result] at ended
      cases fault with
      | unavailable id lack =>
          cases ended
          exact .inr ⟨rfl, _, rfl, trivial⟩
      | noField domains => cases ended
      | emptyList => cases ended

end Steps

/-- How a build may end: with a result that has the property, or for lack of something.  Either way
the picker keeps its catalog. -/
def Ends (c : Catalog) (P : α → Prop) : EStateM.Result Fault Bench α → Prop
  | .ok a b => P a ∧ b.fields.catalog = c
  | .error fault b => fault.IsLack ∧ b.fields.catalog = c

/-- A build ends so on every bench for the catalog. -/
def Delivers (c : Catalog) (P : α → Prop) (x : Build α) : Prop :=
  ∀ b : Bench, b.fields.catalog = c → Ends c P (x b)

namespace Delivers

theorem pure {a : α} (holds : P a) : Delivers c P (pure a) :=
  fun _ same => ⟨holds, same⟩

theorem lacking (id : String) (lack : Lack) : Delivers c P (throw (.unavailable id lack)) :=
  fun _ same => ⟨trivial, same⟩

theorem bind {x : Build α} {f : α → Build β} (first : Delivers c P x)
    (rest : ∀ a, P a → Delivers c Q (f a)) : Delivers c Q (x >>= f) := by
  intro b same
  have ends := first b same
  cases result : x b with
  | ok a b' =>
      rw [result] at ends
      rw [bind_of_ok result]
      exact rest a ends.1 b' ends.2
  | error fault b' =>
      rw [result] at ends
      rw [bind_of_error result]
      exact ends

theorem mono {P' : α → Prop} {x : Build α} (delivers : Delivers c P x) (weaker : ∀ a, P a → P' a) :
    Delivers c P' x := by
  intro b same
  have ends := delivers b same
  cases result : x b with
  | ok a b' =>
      rw [result] at ends
      exact ⟨weaker a ends.1, ends.2⟩
  | error fault b' =>
      rw [result] at ends
      exact ends

theorem draw {f : Rng → α × Rng} (each : ∀ r, P (f r).1) : Delivers c P (draw f) :=
  fun b same => ⟨each b.rng, same⟩

theorem get : Delivers c (fun b => b.fields.catalog = c) get :=
  fun _ same => ⟨same, same⟩

theorem modify {f : Bench → Bench} (keeps : ∀ b, b.fields.catalog = c → (f b).fields.catalog = c) :
    Delivers c (fun _ => True) (modify f) :=
  fun b same => ⟨trivial, keeps b same⟩

/-- What an attempt finds lacking is no fault. -/
theorem attempt {x : Build α} (delivers : Delivers c P x) :
    Delivers c (fun o => ∀ a ∈ o, P a) (attempt x) := by
  intro b same
  have ends := delivers b same
  unfold Build.attempt
  cases result : x b with
  | ok a b' =>
      rw [result] at ends
      refine ⟨?_, ends.2⟩
      rintro _ ⟨⟩
      exact ends.1
  | error fault b' =>
      rw [result] at ends
      cases fault with
      | unavailable id lack => exact ⟨by simp, ends.2⟩
      | noField domains => exact ends.1.elim
      | emptyList => exact ends.1.elim

end Delivers

end Build

/-! ## Fields -/

namespace FieldPicker

/-- A member that no member outranks. -/
def Best {α β : Type} [LE β] (rank : α → β) (items : List α) (a : α) : Prop :=
  a ∈ items ∧ ∀ b ∈ items, rank b ≤ rank a

/-- Preferring a property is taking the best by it. -/
theorem mem_prefer {α : Type} {property : α → Bool} {items : List α} {a : α} :
    a ∈ prefer property items ↔ Best property items a := by
  simp only [prefer, Best, List.isEmpty_iff]
  by_cases none : items.filter property = []
  · have lacks : ∀ b ∈ items, property b = false := by simpa using none
    simp only [none, if_true]
    refine ⟨fun member => ⟨member, fun b other => ?_⟩, And.left⟩
    simp [lacks b other]
  · simp only [none, if_false, List.mem_filter]
    obtain ⟨b, member⟩ := List.exists_mem_of_ne_nil _ none
    obtain ⟨listed, has⟩ := List.mem_filter.1 member
    refine and_congr_right fun _ => ⟨fun has _ _ => by simp [has], fun best => ?_⟩
    exact Bool.eq_true_of_true_le (has ▸ best b listed)

theorem mem_of_mem_prefer {α : Type} {property : α → Bool} {items : List α} {a : α}
    (member : a ∈ prefer property items) : a ∈ items :=
  (mem_prefer.1 member).1

theorem prefer_ne_nil {α : Type} {property : α → Bool} {items : List α} (some_item : items ≠ []) :
    prefer property items ≠ [] := by
  unfold prefer
  dsimp only
  split
  · exact some_item
  · rename_i chosen
    simpa using chosen

variable {p : FieldPicker} {domains : List String}

theorem mem_of_mem_pool {avoid : List String} {f : Field} (member : f ∈ p.pool domains avoid) :
    f ∈ p.catalog.fieldsByDomain domains :=
  mem_of_mem_prefer (mem_of_mem_prefer (mem_of_mem_prefer member))

theorem pool_ne_nil (supplied : p.canSupply domains = true) (avoid : List String) :
    p.pool domains avoid ≠ [] := by
  refine prefer_ne_nil (prefer_ne_nil (prefer_ne_nil ?_))
  simpa [canSupply] using supplied

/-- Where the catalog has a field, one is picked. -/
theorem pick?_eq_some (supplied : p.canSupply domains = true) (avoid : List String) (r : Rng) :
    ∃ f r', p.pick? domains avoid r = (some (f, { p with picked := f :: p.picked }), r') ∧
      p.catalog.field? f.id = some f ∧ f.domain ∈ domains := by
  obtain ⟨f, member, picked⟩ := r.pick?_isSome (pool_ne_nil supplied avoid)
  obtain ⟨listed, domain⟩ := List.mem_filter.1 (mem_of_mem_pool member)
  refine ⟨f, (r.pick? (p.pool domains avoid)).2, ?_, Catalog.field?_eq_some.2 ⟨listed, rfl⟩,
    by simpa using domain⟩
  have nonempty : (p.pool domains avoid).isEmpty = false := by
    simpa using pool_ne_nil supplied avoid
  unfold pick?
  dsimp only
  rw [nonempty, picked]
  rfl

end FieldPicker

/-! ## Operators -/

namespace Build

variable {α : Type} {c : Catalog} {q : Catalog.Query} {target : List String} {op : Operator}

/-- An operator of the catalog that meets a query and produces a domain of the target. -/
structure Suits (c : Catalog) (q : Catalog.Query) (target : List String) (op : Operator) :
    Prop where
  known : c.operator? op.id = some op
  arity : ∀ a, q.arity = some a → op.arity = a
  plain : q.includeRoles = false → op.role = none
  output : op.output ∈ target

theorem suits_of_mem_compatible (member : op ∈ c.compatible { q with output := some target }) :
    Suits c q target op := by
  obtain ⟨listed, met⟩ := List.mem_filter.1 member
  simp only [Catalog.Query.isMetBy, Bool.and_eq_true, Catalog.Query.meets] at met
  obtain ⟨⟨⟨⟨⟨role, arity⟩, -⟩, -⟩, output⟩, -⟩ := met
  refine ⟨Catalog.operator?_eq_some.2 ⟨listed, rfl⟩, ?_, ?_, by simpa using output⟩
  · intro a asked
    rw [asked] at arity
    exact of_decide_eq_true arity
  · intro excluded
    simpa [excluded] using role

theorem Suits.sound (suits : Suits c q target op) : op.Sound c.domains :=
  Catalog.operator?_sound suits.known

theorem pick_delivers {items : List α} (some_item : items ≠ []) :
    Delivers c (· ∈ items) (pick items) := by
  have chosen : Delivers c (fun o => ∃ a ∈ items, o = some a) (draw (·.pick? items)) :=
    .draw fun r => r.pick?_isSome some_item
  refine chosen.bind ?_
  rintro _ ⟨a, member, rfl⟩
  exact .pure member

/-- Whatever is picked meets the query. -/
theorem pickOperator_delivers (id : String) :
    Delivers c (· ∈ c.compatible { q with output := some target }) (pickOperator c id q target) := by
  unfold pickOperator
  split
  · exact .lacking _ _
  · rename_i nonempty
    exact pick_delivers nonempty

/-! ## Windows -/

theorem drawWindow_spec {low high : Int} (r : Rng) :
    ∃ n : Int, (drawWindow (low : ℚ) (high : ℚ) r).1 = n ∧ low ≤ n ∧ n ≤ max low (min high 60) := by
  have upper : Scale.greater (low : ℚ) (Scale.lesser (high : ℚ) (Scale.ofNat maxInitialWindow))
      = ((max low (min high 60) : ℤ) : ℚ) := by
    have lesser : Scale.lesser (high : ℚ) (Scale.ofNat maxInitialWindow)
        = ((min high 60 : ℤ) : ℚ) := by
      rw [Int.cast_min, min_def]
      rfl
    rw [lesser, Int.cast_max, max_def]
    rfl
  unfold drawWindow
  rw [upper]
  exact r.between_int (le_max_left _ _)

/-- The drawn window is whole as a double, too: it is an end of the range, or small. -/
theorem windowFor_delivers (sound : op.Sound c.domains) :
    Delivers c op.WindowFits (windowFor op) := by
  unfold windowFor
  cases window : op.window with
  | none =>
      refine .pure (Operator.windowFits_none fun windowed => ?_)
      have ranged := sound.windowed.2 windowed
      rw [window] at ranged
      cases ranged
  | some range =>
      obtain ⟨low, high, ends, positive, ordered⟩ :=
        (range.isValid_iff).1 (sound.range range window)
      have windowed := sound.windowed
      rw [window] at windowed
      rw [Option.bind_some, ends]
      have drawn : Delivers c (fun w : ℚ => ∃ n : Int, w = n ∧ low ≤ n ∧ n ≤ max low (min high 60))
          (draw (drawWindow (low : ℚ) (high : ℚ))) :=
        .draw drawWindow_spec
      refine drawn.bind ?_
      rintro _ ⟨n, rfl, least, most⟩
      refine .pure ⟨by simpa using windowed, ?_⟩
      rintro _ ⟨⟩
      refine ⟨range, low, high, n, window, ends, ?_, least, by omega⟩
      rw [Rat.floor_intCast]
      rcases le_or_gt n 60 with small | large
      · exact Number.toInt?_ofInt_of_abs_le (abs_le.2 ⟨by omega, by omega⟩)
      · obtain rfl : n = low := by omega
        exact Number.toInt?_ofInt (WindowRange.bounds?_eq_some.1 ends).1

end Build

end AlphaFoundry
