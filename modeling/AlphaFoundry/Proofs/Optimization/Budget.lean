/-
# AlphaFoundry.Proofs.Optimization.Budget -- searches with more rounds to spend

No round knows how many may follow it.  A search with a smaller budget is therefore the beginning of
the search with a larger one: it makes the same rounds, notes the same improvements, and ends where
its budget ends unless the patience was used up before.
-/
import AlphaFoundry.Proofs.Optimization.Ascent

namespace AlphaFoundry

set_option autoImplicit false

namespace Search.Setting

variable {s : Setting} {k : Climb} {n m i j : Nat} {reason reason' : StopReason}

/-- The smaller budget ends a search if the patience does not. -/
theorem Stops.eq_min (short : s.Stops k n i reason) (long : s.Stops k m j reason')
    (less : n ≤ m) : i = min n j := by
  have within := short.within
  -- Whichever search stopped before its budget was tired, and the other was not yet.
  rcases Nat.lt_trichotomy i j with earlier | rfl | later
  · by_cases spent : i = n
    · omega
    · obtain ⟨one, tired⟩ := short.tired.1 (short.early (by omega))
      rw [long.before i one earlier] at tired
      cases tired
  · omega
  · obtain ⟨one, tired⟩ := long.tired.1 (long.early (by omega))
    rw [short.before j one later] at tired
    cases tired

/-- Two searches that stop behind the same round do so for the same reason. -/
theorem Stops.reason_eq (short : s.Stops k n i reason) (long : s.Stops k m i reason') :
    reason = reason' := by
  have same : reason = .noImprovement ↔ reason' = .noImprovement :=
    short.tired.trans long.tired.symm
  cases reason <;> cases reason' <;> simp at same ⊢

theorem rounds_improvements : ∀ {n m : Nat} (done : Nat) (k : Climb), n ≤ m →
    (s.rounds n done k).2.2.2 <+: (s.rounds m done k).2.2.2
  | 0, _, _, _, _ => List.nil_prefix
  | n + 1, 0, _, _, less => by omega
  | n + 1, m + 1, done, k, less => by
      unfold rounds
      dsimp only
      split
      · exact List.prefix_rfl
      · exact (List.prefix_append_right_inj _).2
          (rounds_improvements (done + 1) (s.round k).1 (Nat.le_of_succ_le_succ less))

/-- An undefined grade is not beaten by anything. -/
theorem after_undefined (undefined : k.grade = .undefined) (n : Nat) :
    (s.after k n).grade = .undefined := by
  rcases after_grade (s := s) (k := k) n.zero_le with same | better
  · exact same.trans undefined
  · rw [show (s.after k 0).grade = .undefined from undefined] at better
    cases grade : (s.after k n).grade with
    | undefined => rfl
    | points p =>
        rw [grade] at better
        cases better

end Search.Setting

open Search

namespace Optimizer

variable {a : Optimizer} {k : Candidate}

/-- The note of an improvement. -/
def improvementNote (k : Candidate) (i : Improvement) : Log.Note where
  level := .debug
  message := s!"{k.id} round {i.round}: {i.mutation.name} "
    ++ Number.text i.before.toFloat ++ " -> " ++ Number.text i.after.toFloat

/-- A search of an accepted candidate notes its improvements, and last how it ended. -/
theorem dropLast_notes {iterations : Float} {budget : ℕ}
    (whole : Number.toInt? iterations = some (budget : ℤ))
    (accepted : (a.validator.validate k).accepted = true) :
    (a.search k iterations).notes.dropLast
      = ((a.setting k.tier).rounds budget 0 (a.start k)).2.2.2.map (improvementNote k) := by
  unfold search
  rw [whole]
  dsimp only [Int.ofNat_eq_natCast]
  rw [if_pos accepted, Logged.bind_notes (Logged.forIn_note_result ..), Logged.forIn_note_notes]
  exact List.dropLast_concat

/-- The search with the smaller budget is the beginning of the one with the larger budget: it makes
the rounds that both have, and is the same search if the patience ends that before the budget does.
Its result is no better, unless the input has a score that compares with nothing. -/
theorem search_extends (a : Optimizer) (k : Candidate) {few many : Float} {n m : ℕ}
    (less : n ≤ m) (whole : Number.toInt? few = some (n : ℤ))
    (whole' : Number.toInt? many = some (m : ℤ))
    (accepted : (a.validator.validate k).accepted = true) :
    ∃ short long, (a.search k few).result = .ok short ∧ (a.search k many).result = .ok long ∧
      short.iterations = min n long.iterations ∧
      short.history = long.history.take (short.iterations + 1) ∧
      short.scores = long.scores.take (short.iterations + 1) ∧
      (long.iterations ≤ n → short = long) ∧
      (a.search k few).notes.dropLast <+: (a.search k many).notes.dropLast ∧
      (short.best.score ≤ long.best.score ↔ a.grade k.root ≠ .undefined) := by
  obtain ⟨i, reason, short, ended⟩ := exists_search whole accepted
  obtain ⟨j, reason', long, ended'⟩ := exists_search whole' accepted
  refine ⟨_, _, ended, ended', short.eq_min long less, ?_⟩
  have first : i = min n j := short.eq_min long less
  have history : ((a.setting k.tier).after (a.start k) i).history.reverse
      = ((a.setting k.tier).after (a.start k) j).history.reverse.take (i + 1) := by
    rw [Setting.history_eq rfl, Setting.history_eq rfl, ← List.map_take, List.take_range,
      min_eq_left (by omega)]
  refine ⟨history, ?_, ?_, ?_, ?_⟩
  · rw [Result.scores, Result.scores, ← List.map_take]
    exact congrArg _ history
  · intro patient
    obtain rfl : i = j := first.trans (min_eq_right patient)
    rw [short.reason_eq long]
  · rw [dropLast_notes whole accepted, dropLast_notes whole' accepted]
    exact (Setting.rounds_improvements 0 _ less).map _
  · show ((a.setting k.tier).after (a.start k) i).grade.toFloat
      ≤ ((a.setting k.tier).after (a.start k) j).grade.toFloat ↔ _
    refine ⟨fun noWorse undefined => ?_, fun defined => ?_⟩
    · obtain ⟨x, y, value, -⟩ := Number.exists_values_of_le noWorse
      rw [Setting.after_undefined undefined, Grade.value?_undefined] at value
      cases value
    · exact Setting.toFloat_le_after (k := a.start k) defined (by omega)

theorem search_extends_doubled : ∃ short long,
    (Optimizer.search ⟨Catalog.small, { catalog := Catalog.small }, { seed := 3 }⟩ doubled
      2).result = .ok short ∧
    (Optimizer.search ⟨Catalog.small, { catalog := Catalog.small }, { seed := 3 }⟩ doubled
      30).result = .ok long ∧
    short.iterations = 2 ∧ short.scores = long.scores.take 3 ∧
    short.best.score ≤ long.best.score := by
  set a : Optimizer := ⟨Catalog.small, { catalog := Catalog.small }, { seed := 3 }⟩
  have whole : Number.toInt? 2 = some (2 : ℕ) := by decide +kernel
  have whole' : Number.toInt? 30 = some (30 : ℕ) := by decide +kernel
  have accepted : (a.validator.validate doubled).accepted = true := by decide +kernel
  have defined : a.grade doubled.root ≠ .undefined := by decide +kernel
  have counted : (a.search doubled 30).result.toOption.map
      (fun out => decide (2 ≤ out.iterations)) = some true := by
    decide +kernel
  obtain ⟨short, long, ended, ended', rounds, -, scores, -, -, noWorse⟩ :=
    search_extends a doubled (by decide) whole whole' accepted
  rw [ended'] at counted
  have rounds : short.iterations = 2 :=
    rounds.trans (min_eq_left (of_decide_eq_true (Option.some.inj counted)))
  rw [rounds] at scores
  exact ⟨short, long, ended, ended', rounds, scores, noWorse.2 defined⟩

/-- With finite weights that overflow against each other, the result of one round is not as good as
that of none, nor is either as good as itself: both scores are no numbers. -/
theorem search_overflowing_longer :
    [overflowing.diversity, overflowing.robustness, overflowing.normalizeBonus,
      overflowing.neutralizeBonus].all Float.isFinite = true ∧
    (({ catalog := Catalog.small } : Validator).validate wrappedSum).accepted = true ∧
    ([0, 1].map fun budget : Float =>
      (Optimizer.search ⟨Catalog.small, { catalog := Catalog.small }, { weights := overflowing }⟩
        wrappedSum budget).result.toOption.map fun out =>
      (out.iterations, out.best.score.isNaN)) = [some (0, true), some (1, true)] ∧
    ((Optimizer.search ⟨Catalog.small, { catalog := Catalog.small }, { weights := overflowing }⟩
        wrappedSum 0).result.toOption.bind fun short =>
      (Optimizer.search ⟨Catalog.small, { catalog := Catalog.small }, { weights := overflowing }⟩
        wrappedSum 1).result.toOption.map fun long =>
      decide (short.best.score ≤ long.best.score)) = some false := by
  decide +kernel

end Optimizer

end AlphaFoundry
