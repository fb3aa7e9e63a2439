/-
# AlphaFoundry.Proofs.Optimization.Traps -- the steps of a mutation that cannot fail

A mutation draws a place and what to put there, and then goes to the place.  It offers only places
with something to put there, and only nodes of the formula; so the draws find something, and so does
the walk.  As for builds, each such step gets a trap, and no trap is sprung, on any formula.
-/
import Mathlib
import AlphaFoundry.Proofs.Generation.Traps
import AlphaFoundry.Proofs.Generation.Turns
import AlphaFoundry.Proofs.Optimization.Mutation

namespace AlphaFoundry

set_option autoImplicit false

namespace Mutation

/-- A computation on the stream that may end with a fault. -/
abbrev Risky (α : Type) := EStateM Build.Fault Rng α

/-- What is done at the steps that would fail. -/
structure Traps where
  emptyList : (α : Type) → Risky α
  /-- There is no application at a path that was picked. -/
  lostNode : Risky (Option Expr)
  /-- There is no mutation with a number that was drawn. -/
  lostMutation : Risky (Option (Mutation × Expr))

/-- A computation that cannot fail. -/
def safely {α : Type} (f : Rng → α × Rng) : Risky α := fun r =>
  .ok (f r).1 (f r).2

namespace Traps

/-- Traps that end a mutation with a fault. -/
def throwing : Traps where
  emptyList _ := throw .emptyList
  lostNode := throw .emptyList
  lostMutation := throw .emptyList

variable (t : Traps) (c : Catalog)

/-! ## Mutations with traps -/

def pick {α : Type} (items : List α) : Risky α := do
  match ← safely (·.pick? items) with
  | some a => return a
  | none => t.emptyList α

def replaceField (e : Expr) : Risky (Option Expr) := do
  let options := (openVisits c e).filterMap fun v =>
    let alternatives := fieldAlternatives c v
    if alternatives.isEmpty then none else some (v.path, alternatives)
  if options.isEmpty then return none
  else
    let (path, alternatives) ← t.pick options
    let f ← t.pick alternatives
    return some (e.replaceAt path (.field f.id))

def replaceOperator (e : Expr) : Risky (Option Expr) := do
  let options := (openVisits c e).filterMap fun v =>
    let alternatives := operatorAlternatives c v
    if alternatives.isEmpty then none else some (v.path, alternatives)
  if options.isEmpty then return none
  else
    let (path, alternatives) ← t.pick options
    let op ← t.pick alternatives
    match e.nodeAt? path with
    | some (.apply _ children window) =>
      let window := op.window.map fun range => clamp (window.getD range.min) range
      return some (e.replaceAt path (.apply op.id children window))
    | _ => t.lostNode

def replaceWindow (e : Expr) : Risky (Option Expr) := do
  let options := (openVisits c e).filterMap fun v => (windowOf c v).map fun w => (v.path, w)
  if options.isEmpty then return none
  else
    let (path, window, range) ← t.pick options
    let moved := clamp (← safely (moveWindow window)) range
    if moved == window then return none
    else
      match e.nodeAt? path with
      | some (.apply operator children _) =>
        return some (e.replaceAt path (.apply operator children (some moved)))
      | _ => t.lostNode

def apply (m : Mutation) (e : Expr) : Risky (Option Expr) :=
  match m with
  | swapField => t.replaceField c e
  | swapOperator => t.replaceOperator c e
  | adjustWindow => t.replaceWindow c e

def tryAll : Nat → List Mutation → Expr → Risky (Option (Mutation × Expr))
  | 0, _, _ => return none
  | fuel + 1, ms, e => do
    if ms.isEmpty then return none
    else
      let i ← safely (·.index ms.length)
      match ms[i]? with
      | none => t.lostMutation
      | some m =>
        match ← t.apply c m e with
        | some e' => return some (m, e')
        | none => tryAll fuel (ms.eraseIdx i) e

def mutate (ms : List Mutation) (e : Expr) : Risky (Option (Mutation × Expr)) :=
  t.tryAll c ms.length ms e

/-! ## No trap is sprung -/

variable {t c} {e : Expr} {r s : Rng} {α β : Type} {items : List α} {a : α}

theorem eq_safely {x : Risky α} {f : Rng → α × Rng} (each : ∀ r, x r = .ok (f r).1 (f r).2) :
    x = safely f :=
  funext each

theorem safely_bind (f : Rng → α × Rng) (k : α → Risky β) :
    (safely f >>= k) r = k (f r).1 (f r).2 :=
  rfl

theorem pick_bind (picked : r.pick? items = (some a, s)) (f : α → Risky β) :
    (t.pick items >>= f) r = f a s := by
  simp only [pick, safely, bind, EStateM.bind, picked]
  rfl

theorem exists_pick (some_item : ¬items.isEmpty = true) (r : Rng) :
    ∃ a s, r.pick? items = (some a, s) := by
  obtain ⟨a, -, picked⟩ := r.pick?_isSome fun none => some_item (List.isEmpty_iff.2 none)
  exact ⟨a, (r.pick? items).2, Prod.ext picked rfl⟩

/-- A place with alternatives is drawn, and one of them, as long as there is such a place. -/
theorem exists_alternative (alternatives : Visit → List α) {options : List (Path × List α)}
    (all : options = (openVisits c e).filterMap fun v =>
      if (alternatives v).isEmpty then none else some (v.path, alternatives v))
    (some_option : ¬options.isEmpty = true) (r : Rng) :
    ∃ v n, v ∈ openVisits c e ∧ Target c e v n ∧ ¬(alternatives v).isEmpty = true ∧
      ∃ s a s', r.pick? options = (some (v.path, alternatives v), s) ∧
        s.pick? (alternatives v) = (some a, s') := by
  obtain ⟨⟨path, others⟩, s, picked⟩ := exists_pick some_option r
  have member := Rng.mem_of_pick? picked
  rw [all, List.mem_filterMap] at member
  obtain ⟨v, member, made⟩ := member
  split at made
  · cases made
  rename_i some_alternative
  obtain ⟨rfl, rfl⟩ := Prod.mk.inj (Option.some.inj made)
  obtain ⟨n, target⟩ := target_of_mem member
  obtain ⟨a, s', drawn⟩ := exists_pick some_alternative s
  exact ⟨v, n, member, target, some_alternative, s, a, s', picked, drawn⟩

theorem replaceField_eq (e : Expr) : t.replaceField c e = safely (Mutation.replaceField c e) := by
  refine eq_safely fun r => ?_
  unfold replaceField Mutation.replaceField
  dsimp only
  split
  · rfl
  · rename_i some_option
    obtain ⟨v, n, -, -, -, s, f, s', picked, chosen⟩ :=
      exists_alternative (fieldAlternatives c) rfl some_option r
    rw [pick_bind picked, picked]
    dsimp only
    rw [pick_bind chosen, chosen]
    rfl

/-- Where an operator has alternatives, there is an application. -/
theorem exists_apply_of_alternatives {v : Visit} {n : Expr} (target : Target c e v n)
    (some_alternative : ¬(operatorAlternatives c v).isEmpty = true) :
    ∃ operator children window, n = .apply operator children window := by
  unfold operatorAlternatives at some_alternative
  rw [target.label] at some_alternative
  cases n with
  | apply operator children window => exact ⟨operator, children, window, rfl⟩
  | field id => exact absurd rfl some_alternative
  | literal value => exact absurd rfl some_alternative

theorem replaceOperator_eq (e : Expr) :
    t.replaceOperator c e = safely (Mutation.replaceOperator c e) := by
  refine eq_safely fun r => ?_
  unfold replaceOperator Mutation.replaceOperator
  dsimp only
  split
  · rfl
  · rename_i some_option
    obtain ⟨v, n, -, target, some_alternative, s, op, s', picked, chosen⟩ :=
      exists_alternative (operatorAlternatives c) rfl some_option r
    obtain ⟨operator, children, window, rfl⟩ := exists_apply_of_alternatives target some_alternative
    rw [pick_bind picked, picked]
    dsimp only
    rw [pick_bind chosen, chosen, target.found]
    rfl

/-- Where there is a window, there is an application. -/
theorem exists_apply_of_window {v : Visit} {n : Expr} (target : Target c e v n)
    {window : Float × WindowRange} (windowed : windowOf c v = some window) :
    ∃ operator children window, n = .apply operator children window := by
  unfold windowOf at windowed
  rw [target.label] at windowed
  cases n with
  | apply operator children window => exact ⟨operator, children, window, rfl⟩
  | field id => cases windowed
  | literal value => cases windowed

theorem replaceWindow_eq (e : Expr) :
    t.replaceWindow c e = safely (Mutation.replaceWindow c e) := by
  refine eq_safely fun r => ?_
  unfold replaceWindow Mutation.replaceWindow
  dsimp only
  split
  · rfl
  · rename_i some_option
    obtain ⟨⟨path, window, range⟩, s, picked⟩ := exists_pick some_option r
    obtain ⟨v, n, target, made⟩ := mem_options rfl picked
    obtain ⟨_, windowed, same⟩ := Option.map_eq_some_iff.1 made
    obtain ⟨rfl, rfl⟩ := Prod.mk.inj same
    obtain ⟨operator, children, w, rfl⟩ := exists_apply_of_window target windowed
    rw [pick_bind picked, picked]
    dsimp only
    rw [target.found, safely_bind]
    dsimp only
    split <;> rfl

theorem apply_eq (m : Mutation) (e : Expr) : t.apply c m e = safely (m.apply c e) := by
  cases m with
  | swapField => exact replaceField_eq e
  | swapOperator => exact replaceOperator_eq e
  | adjustWindow => exact replaceWindow_eq e

theorem tryAll_eq (e : Expr) : ∀ (fuel : ℕ) (ms : List Mutation),
    t.tryAll c fuel ms e = safely (Mutation.tryAll c fuel ms e) := by
  intro fuel
  induction fuel with
  | zero => exact fun ms => rfl
  | succ fuel ih =>
      intro ms
      refine eq_safely fun r => ?_
      unfold tryAll Mutation.tryAll
      dsimp only
      split
      · rfl
      · rename_i some_mutation
        have bound := r.index_lt
          (List.length_pos_iff.2 fun none => some_mutation (List.isEmpty_iff.2 none))
        have drawn := List.getElem?_eq_getElem bound
        rw [safely_bind, drawn]
        dsimp only
        rw [apply_eq, safely_bind]
        rcases ms[(r.index ms.length).1].apply c e (r.index ms.length).2 with ⟨_ | mutant, s⟩
        · dsimp only
          rw [ih]
          rfl
        · rfl

/-- A mutation springs no trap, on any formula and with any mutations to choose from. -/
theorem mutate_eq (ms : List Mutation) (e : Expr) :
    t.mutate c ms e = safely (Mutation.mutate c ms e) :=
  tryAll_eq e ms.length ms

end Traps

end Mutation

/-! ## What can be thrown -/

namespace Generation

variable {c : Catalog} {tier : String} {count : Float} {o : Options}

/-- On every catalog, planning throws only refusals of the request, and yielding only that no
skeleton could be built; a mutation of any formula throws nothing.  What is done where a choice has
no item, a slot no field or an operator no argument does not matter to any of them. -/
theorem throws_only_own (c : Catalog) (tier : String) (count : Float) (o : Options)
    (t : Build.Traps) (u : Mutation.Traps) :
    t.plan c tier count o = plan c tier count o ∧
    (∀ fault, (plan c tier count o).result = .error fault →
      (∃ refusal, fault = .request refusal) ∧ (Failure.ofPlan fault).name = "GenerationError") ∧
    (∀ p, (plan c tier count o).result = .ok p →
      t.yield p = p.yield ∧
      ∀ fault, p.yield.fault = some fault →
        fault = .unavailable ("|".intercalate (p.skeletons.map Skeleton.id))
          (.everything p.signal) ∧
        (Failure.build fault).name = "SkeletonUnavailableError") ∧
    ∀ (ms : List Mutation) (e : Expr) (r : Rng),
      u.mutate c ms e r = .ok (Mutation.mutate c ms e r).1 (Mutation.mutate c ms e r).2 := by
  refine ⟨Build.Traps.plan_eq c tier count o, fun fault failed => ?_, fun p made => ⟨?_, ?_⟩, ?_⟩
  · obtain ⟨refusal, rfl⟩ := plan_error failed
    exact ⟨⟨refusal, rfl⟩, rfl⟩
  · exact Build.Traps.yield_eq (planned_of_plan made)
  · intro fault ended
    rcases Batch.yield_ends (foreseen_of_plan made).1 with ⟨faultless, -⟩ | ⟨unavailable, -⟩
    · rw [faultless] at ended
      cases ended
    · obtain rfl := Option.some.inj (unavailable.symm.trans ended)
      exact ⟨rfl, rfl⟩
  · exact fun ms e r => congrFun (Mutation.Traps.mutate_eq ms e) r

/-- A batch of the small catalog, and a change of a sum, with traps that throw. -/
theorem throws_only_own_small : ∃ p, (plan Catalog.small "creative" 2 {}).result = .ok p ∧
    (Build.Traps.throwing.yield p).fault = none ∧
    (Build.Traps.throwing.yield p).candidates.length = 2 ∧
    ∃ mutant r, Mutation.Traps.throwing.mutate Catalog.small Mutation.all
      (.apply "add" [.field "close", .field "volume"] none) ⟨0⟩ = .ok (some mutant) r := by
  obtain ⟨-, -, yields, mutates⟩ :=
    throws_only_own Catalog.small "creative" 2 {} .throwing .throwing
  have runs : ((plan Catalog.small "creative" 2 {}).result.toOption.map fun p =>
      (p.yield.fault.isNone, p.yield.candidates.length)) = some (true, 2) := by decide +kernel
  obtain ⟨p, made, runs⟩ := Option.map_eq_some_iff.1 runs
  have made := except_toOption_eq_some.1 made
  obtain ⟨faultless, length⟩ := Prod.mk.inj runs
  have changed : (Mutation.mutate Catalog.small Mutation.all
      (.apply "add" [.field "close", .field "volume"] none) ⟨0⟩).1.isSome = true := by
    decide +kernel
  obtain ⟨mutant, changed⟩ := Option.isSome_iff_exists.1 changed
  have mutated := mutates Mutation.all (.apply "add" [.field "close", .field "volume"] none) ⟨0⟩
  rw [changed] at mutated
  have same := (yields p made).1
  exact ⟨p, made, by rw [same]; exact Option.isNone_iff_eq_none.1 faultless,
    by rw [same]; exact length, mutant, _, mutated⟩

end Generation

end AlphaFoundry
