/-
# AlphaFoundry.Proofs.Log -- results of logged computations

What is noted on the way does not matter for the result.
-/
import Mathlib
import AlphaFoundry.Log

namespace AlphaFoundry

set_option autoImplicit false

namespace Logged

variable {ε ε' α β : Type}

theorem bind_result {x : Logged ε α} {f : α → Logged ε β} {b : β} :
    (x >>= f).result = .ok b ↔ ∃ a, x.result = .ok a ∧ (f a).result = .ok b := by
  obtain ⟨notes, result⟩ := x
  cases result with
  | ok a =>
      show (f a).result = .ok b ↔ _
      simp
  | error e =>
      show (Except.error e : Except ε β) = .ok b ↔ _
      simp

theorem bind_of_ok {x : Logged ε α} {f : α → Logged ε β} {a : α} (ended : x.result = .ok a) :
    (x >>= f).result = (f a).result := by
  show (Logged.bind x f).result = _
  unfold Logged.bind
  rw [ended]

theorem bind_of_error {x : Logged ε α} {f : α → Logged ε β} {e : ε} (failed : x.result = .error e) :
    (x >>= f).result = .error e := by
  show (Logged.bind x f).result = _
  unfold Logged.bind
  rw [failed]

/-- Only what the first computation may return matters to the second. -/
theorem bind_congr_of_ok {x : Logged ε α} {f g : α → Logged ε β}
    (same : ∀ a, x.result = .ok a → f a = g a) : x >>= f = x >>= g := by
  obtain ⟨notes, result⟩ := x
  cases result with
  | error e => rfl
  | ok a =>
      show Logged.bind _ f = Logged.bind _ g
      unfold Logged.bind
      dsimp only
      rw [same a rfl]

theorem mapError_result {f : ε → ε'} {x : Logged ε α} {a : α} :
    (x.mapError f).result = .ok a ↔ x.result = .ok a := by
  obtain ⟨notes, result⟩ := x
  cases result <;> simp [mapError, Except.mapError]

instance : LawfulMonad (Logged ε) :=
  LawfulMonad.mk' (Logged ε)
    (fun x => by
      obtain ⟨notes, result⟩ := x
      cases result with
      | ok a => exact congrArg (Logged.mk · _) (List.append_nil notes)
      | error e => rfl)
    (fun _ _ => rfl)
    (fun x f g => by
      obtain ⟨notes, result⟩ := x
      cases result with
      | error e => rfl
      | ok a =>
          show Logged.bind (Logged.bind ⟨notes, .ok a⟩ f) g
            = Logged.bind ⟨notes, .ok a⟩ fun a => Logged.bind (f a) g
          simp only [Logged.bind]
          cases (f a).result with
          | error e => rfl
          | ok b => exact congrArg (Logged.mk · _) (List.append_assoc ..))

/-- If all items of a list are mapped, each of them is. -/
theorem mapM_result {f : α → Logged ε β} : ∀ {items : List α} {mapped : List β},
    (items.mapM f).result = .ok mapped →
      List.Forall₂ (fun a b => (f a).result = .ok b) items mapped
  | [], mapped, ended => by
      obtain rfl : [] = mapped := Except.ok.inj ended
      exact .nil
  | a :: rest, mapped, ended => by
      rw [List.mapM_cons] at ended
      obtain ⟨b, first, ended⟩ := bind_result.1 ended
      obtain ⟨below, others, ended⟩ := bind_result.1 ended
      obtain rfl : b :: below = mapped := Except.ok.inj ended
      exact .cons first (mapM_result others)

/-- If each item of a list can be mapped, all of them can. -/
theorem exists_mapM_result {f : α → Logged ε β} : ∀ {items : List α},
    (∀ a ∈ items, ∃ b, (f a).result = .ok b) → ∃ mapped, (items.mapM f).result = .ok mapped
  | [], _ => ⟨[], rfl⟩
  | a :: rest, each => by
      obtain ⟨b, first⟩ := each a List.mem_cons_self
      obtain ⟨below, others⟩ := exists_mapM_result fun a member =>
        each a (List.mem_cons_of_mem _ member)
      refine ⟨b :: below, ?_⟩
      rw [List.mapM_cons, bind_of_ok first, bind_of_ok others]
      rfl

/-- Noting something for each item cannot fail. -/
theorem forIn_note_result (items : List α) (level : Log.Level) (message : α → String) :
    (forIn items PUnit.unit fun a _ => do
      note (ε := ε) level (message a)
      pure (ForInStep.yield PUnit.unit)).result = .ok PUnit.unit := by
  induction items with
  | nil => rfl
  | cons a rest ih =>
      rw [List.forIn_cons]
      exact bind_result.2 ⟨.yield PUnit.unit, rfl, ih⟩

/-! ## Notes -/

theorem bind_notes {x : Logged ε α} {f : α → Logged ε β} {a : α} (ended : x.result = .ok a) :
    (x >>= f).notes = x.notes ++ (f a).notes := by
  show (Logged.bind x f).notes = _
  unfold Logged.bind
  rw [ended]

theorem forIn_note_notes (items : List α) (level : Log.Level) (message : α → String) :
    (forIn items PUnit.unit fun a _ => do
      note (ε := ε) level (message a)
      pure (ForInStep.yield PUnit.unit)).notes
        = items.map fun a => { level, message := message a } := by
  induction items with
  | nil => rfl
  | cons a rest ih =>
      rw [List.forIn_cons, bind_notes (a := .yield PUnit.unit) rfl, List.map_cons]
      exact congrArg _ ih

end Logged

end AlphaFoundry
