/-
# AlphaFoundry.Proofs.Generation.Rotation -- who is next

A strict rotation goes back to an id only when those that were never committed are all excluded, and
to the last one only when all others are.  Whatever is excluded, it offers an id as long as one is
left.
-/
import Mathlib
import AlphaFoundry.Generation.Rotation
import AlphaFoundry.Proofs.Rng.Draw

namespace AlphaFoundry

set_option autoImplicit false

namespace Rotation

/-! ## The first list that is not empty -/

variable {β : Type} {a b : List β} {x : β}

theorem firstNonEmpty_eq_nil : firstNonEmpty a b = [] ↔ a = [] ∧ b = [] := by
  cases a <;> simp [firstNonEmpty]

theorem mem_firstNonEmpty : x ∈ firstNonEmpty a b ↔ x ∈ a ∨ a = [] ∧ x ∈ b := by
  cases a <;> simp [firstNonEmpty]

/-! ## The ids that a pick draws from -/

section Eligible

variable {α : Type} {rot : Rotation α} {exclude : List String} {id : String}

theorem eligible_eq_nil : rot.eligible exclude = [] ↔ ∀ id ∈ rot.ids, id ∈ exclude := by
  have none : (rot.ids.filter fun id => !exclude.contains id) = [] ↔
      ∀ id ∈ rot.ids, id ∈ exclude := by
    simp [List.filter_eq_nil_iff]
  rw [← none]
  unfold eligible
  dsimp only
  split
  · rw [firstNonEmpty_eq_nil, firstNonEmpty_eq_nil]
    refine ⟨fun empty => empty.2.2, fun empty => ?_⟩
    rw [empty]
    exact ⟨rfl, rfl, rfl⟩
  · rfl

/-- An id has its turn in a strict rotation if it is not excluded.  Once it was committed, all that
never were must be excluded; if it was the last one, all others. -/
theorem mem_eligible (strict : rot.strict = true) :
    id ∈ rot.eligible exclude ↔ (id ∈ rot.ids ∧ id ∉ exclude) ∧
      (id ∈ rot.history → ∀ other ∈ rot.ids, other ∉ rot.history → other ∈ exclude) ∧
      (rot.history.head? = some id → ∀ other ∈ rot.ids, other ≠ id → other ∈ exclude) := by
  unfold eligible
  dsimp only
  rw [if_pos strict, mem_firstNonEmpty, mem_firstNonEmpty]
  simp only [List.contains_eq_mem, List.filter_filter, List.mem_filter, Bool.and_eq_true,
    Bool.not_eq_eq_eq_not, Bool.not_true, decide_eq_false_iff_not, List.filter_eq_nil_iff, not_and,
    Decidable.not_not, bne_iff_ne, ne_eq]
  constructor
  · rintro (⟨listed, fresh, left⟩ | ⟨spent, ⟨listed, other, left⟩ | ⟨last, listed, left⟩⟩)
    · exact ⟨⟨listed, left⟩, fun used => absurd used fresh,
        fun last => absurd (List.mem_of_mem_head? last) fresh⟩
    · exact ⟨⟨listed, left⟩, fun _ => spent, fun last => absurd last other⟩
    · refine ⟨⟨listed, left⟩, fun _ => spent, fun same id' listed' different => ?_⟩
      exact last id' listed' fun same' => different (Option.some.inj (same'.symm.trans same))
  · rintro ⟨⟨listed, left⟩, turn, alone⟩
    by_cases used : id ∈ rot.history
    · refine .inr ⟨turn used, ?_⟩
      by_cases last : rot.history.head? = some id
      · refine .inr ⟨fun id' listed' other => alone last id' listed' ?_, listed, left⟩
        rintro rfl
        exact other last
      · exact .inl ⟨listed, last, left⟩
    · exact .inl ⟨listed, used, left⟩

theorem mem_of_mem_eligible (member : id ∈ rot.eligible exclude) : id ∈ rot.ids ∧ id ∉ exclude := by
  suffices id ∈ rot.ids.filter fun id => !exclude.contains id by simpa using this
  unfold eligible at member
  dsimp only at member
  split at member
  · rcases mem_firstNonEmpty.1 member with fresh | ⟨-, member⟩
    · exact List.mem_of_mem_filter fresh
    · rcases mem_firstNonEmpty.1 member with other | ⟨-, member⟩
      · exact List.mem_of_mem_filter other
      · exact member
  · exact member

end Eligible

/-- A pick draws an eligible id, as long as there is one. -/
theorem pick?_spec (rot : Rotation ℚ) (exclude : List String) (r : Rng) :
    (∀ id ∈ (rot.pick? exclude r).1, id ∈ rot.eligible exclude) ∧
    ((rot.pick? exclude r).1 = none → ∀ id ∈ rot.ids, id ∈ exclude) := by
  unfold pick?
  dsimp only
  split
  · rename_i empty
    exact ⟨by simp, fun _ => eligible_eq_nil.1 (by simpa using empty)⟩
  · rename_i nonempty
    obtain ⟨id, member, drawn⟩ := Rng.pickWeighted?_isSome (by simpa using nonempty)
      (fun id => Scale.mul (rot.weight id) (Scale.ofNat (rot.age id))) r
    rw [drawn]
    refine ⟨?_, nofun⟩
    rintro _ ⟨⟩
    exact member

/-- Where there is no id left, the stream stays as it is. -/
theorem pick?_snd_of_none {rot : Rotation ℚ} {exclude : List String} {r : Rng}
    (none : (rot.pick? exclude r).1 = none) : (rot.pick? exclude r).2 = r := by
  unfold pick? at none ⊢
  dsimp only at none ⊢
  split
  · rfl
  · rename_i nonempty
    rw [if_neg nonempty] at none
    obtain ⟨id, -, drawn⟩ := Rng.pickWeighted?_isSome (by simpa using nonempty)
      (fun id => Scale.mul (rot.weight id) (Scale.ofNat (rot.age id))) r
    cases drawn.symm.trans none

/-- If nothing is excluded, one of the ids is drawn. -/
theorem pick?_isSome {rot : Rotation ℚ} (some_id : rot.ids ≠ []) (r : Rng) :
    ∃ id ∈ rot.ids, (rot.pick? [] r).1 = some id := by
  obtain ⟨turn, none⟩ := rot.pick?_spec [] r
  cases drawn : (rot.pick? [] r).1 with
  | none =>
      obtain ⟨id, listed⟩ := List.exists_mem_of_ne_nil _ some_id
      cases none drawn id listed
  | some id => exact ⟨id, (mem_of_mem_eligible (turn id drawn)).1, rfl⟩

end Rotation

end AlphaFoundry
