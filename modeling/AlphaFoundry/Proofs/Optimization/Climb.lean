/-
# AlphaFoundry.Proofs.Optimization.Climb -- what a search keeps, round by round

`Setting.Tries` says once what the tries of a round do to a climb: at most one of them replaces the
best formula, and only by a valid one with a higher grade.  What a whole search keeps follows by
induction on its rounds; `Setting.after` is the climb behind a number of them.
-/
import Mathlib
import AlphaFoundry.Optimization.Search
import AlphaFoundry.Proofs.Log
import AlphaFoundry.Proofs.Number.Count
import AlphaFoundry.Proofs.Optimization.Grade

namespace AlphaFoundry

set_option autoImplicit false

namespace Search

/-! ## Counters -/

namespace Stats

/-- Mutants by their kinds. -/
def byKind (s : Stats) : Nat :=
  s.fieldsSwapped + s.operatorsSwapped + s.windowsAdjusted

variable (s : Stats) (m : Mutation)

@[simp] theorem count_generated : (s.count m).mutantsGenerated = s.mutantsGenerated + 1 := by
  cases m <;> rfl

@[simp] theorem count_rejected : (s.count m).mutantsRejected = s.mutantsRejected := by
  cases m <;> rfl

@[simp] theorem count_improvements : (s.count m).improvements = s.improvements := by
  cases m <;> rfl

theorem count_byKind : (s.count m).byKind = s.byKind + 1 := by
  cases m <;> simp only [count, byKind] <;> omega

/-- At most `limit` mutants more, of which all but one at most are refused; the one that is not may
be an improvement. -/
structure Grows (limit : Nat) (improved : Bool) (old new : Stats) : Prop where
  kinds : new.mutantsGenerated + old.byKind = old.mutantsGenerated + new.byKind
  generated : new.mutantsGenerated ≤ old.mutantsGenerated + limit
  improvements : new.improvements = old.improvements + improved.toNat
  least : old.mutantsGenerated + new.mutantsRejected + improved.toNat
    ≤ new.mutantsGenerated + old.mutantsRejected
  most : new.mutantsGenerated + old.mutantsRejected
    ≤ old.mutantsGenerated + new.mutantsRejected + 1

variable {s} {m}

theorem grows_refl (limit : Nat) : s.Grows limit false s :=
  ⟨rfl, by omega, rfl, by simp, by omega⟩

/-- One mutant that is valid. -/
theorem grows_count (limit : Nat) : s.Grows (limit + 1) false (s.count m) := by
  have kinds := s.count_byKind m
  constructor <;> simp only [count_generated, count_rejected, count_improvements,
    Bool.toNat_false] <;> omega

theorem grows_improve (limit : Nat) : s.Grows (limit + 1) true
    { s.count m with improvements := (s.count m).improvements + 1 } := by
  have kinds := s.count_byKind m
  unfold byKind at kinds
  constructor <;> simp only [byKind, count_generated, count_rejected, count_improvements,
    Bool.toNat_true] <;> omega

/-- A refused mutant before the others. -/
theorem grows_reject {limit : Nat} {improved : Bool} {new : Stats}
    (grows : { s.count m with mutantsRejected := (s.count m).mutantsRejected + 1 }.Grows
      limit improved new) : s.Grows (limit + 1) improved new := by
  have counted := s.count_byKind m
  obtain ⟨kinds, generated, improvements, least, most⟩ := grows
  simp only [byKind, count_generated, count_rejected, count_improvements] at *
  refine ⟨?_, by omega, by omega, by omega, by omega⟩
  simp only [byKind]
  omega

end Stats

/-! ## One round -/

namespace Setting

variable (s : Setting)

/-- The best formula is valid, and the grade is its own. -/
structure Holds (k : Climb) : Prop where
  accepted : (s.validator.validateTree k.best s.tier).accepted = true
  graded : k.grade = Score.total s.catalog s.weights k.best

/-- What at most `limit` tries do to a climb. -/
structure Tries (limit : Nat) (k next : Climb) (improved : Bool) : Prop where
  history : next.history = k.history
  stats : k.stats.Grows limit improved next.stats
  /-- An improvement is a valid formula with a higher grade. -/
  improves : improved = true → s.Holds next ∧ next.grade.beats k.grade = true
  /-- Otherwise the best formula stays. -/
  stays : improved = false → next.best = k.best ∧ next.grade = k.grade

variable {s}

theorem tries_tryMutants : ∀ (n : Nat) (k : Climb),
    s.Tries n k (s.tryMutants n k).1 (s.tryMutants n k).2.isSome
  | 0, k => ⟨rfl, Stats.grows_refl 0, by simp [tryMutants], fun _ => ⟨rfl, rfl⟩⟩
  | n + 1, k => by
      unfold tryMutants
      split
      · exact ⟨rfl, Stats.grows_refl _, by simp, fun _ => ⟨rfl, rfl⟩⟩
      · rename_i m mutant rng made
        dsimp only
        split
        · rename_i accepted
          split
          · rename_i better
            exact ⟨rfl, Stats.grows_improve n, fun _ => ⟨⟨accepted, rfl⟩, better⟩, by simp⟩
          · exact ⟨rfl, Stats.grows_count n, by simp, fun _ => ⟨rfl, rfl⟩⟩
        · obtain ⟨history, stats, improves, stays⟩ := tries_tryMutants n
            { k with
              rng, stats := { k.stats.count m with
                mutantsRejected := (k.stats.count m).mutantsRejected + 1 } }
          exact ⟨history, Stats.grows_reject stats, improves, stays⟩

theorem Tries.isSome_eq {limit : Nat} {k next : Climb} {improved : Bool}
    (tries : s.Tries limit k next improved) : improved = next.grade.beats k.grade := by
  cases improved with
  | true => exact (tries.improves rfl).2.symm
  | false => rw [(tries.stays rfl).2, Grade.beats_self]

variable (s) in
/-- A round that starts here improves the best formula. -/
def improves (k : Climb) : Bool :=
  (s.round k).1.grade.beats k.grade

variable {k : Climb}

theorem round_holds (holds : s.Holds k) : s.Holds (s.round k).1 := by
  obtain ⟨-, -, improves, stays⟩ := tries_tryMutants (s := s) s.retries k
  cases improved : (s.tryMutants s.retries k).2.isSome with
  | true =>
      obtain ⟨accepted, graded⟩ := (improves improved).1
      exact ⟨accepted, graded⟩
  | false =>
      obtain ⟨best, grade⟩ := stays improved
      refine ⟨?_, ?_⟩
      · show (s.validator.validateTree (s.tryMutants s.retries k).1.best s.tier).accepted = true
        rw [best]
        exact holds.accepted
      · show (s.tryMutants s.retries k).1.grade
          = Score.total s.catalog s.weights (s.tryMutants s.retries k).1.best
        rw [best, grade]
        exact holds.graded

theorem round_stats : k.stats.Grows s.retries (s.improves k) (s.round k).1.stats := by
  have tries := tries_tryMutants (s := s) s.retries k
  have same : s.improves k = (s.tryMutants s.retries k).2.isSome := tries.isSome_eq.symm
  rw [same]
  exact tries.stats

theorem round_stale : (s.round k).1.stale = if s.improves k then 0 else k.stale + 1 := by
  have same : (s.tryMutants s.retries k).2.isSome = s.improves k :=
    (tries_tryMutants s.retries k).isSome_eq
  rw [← same]
  rfl

theorem round_history : (s.round k).1.history = (s.round k).1.grade :: k.history := by
  show _ :: (s.tryMutants s.retries k).1.history = _
  rw [(tries_tryMutants s.retries k).history]
  rfl

/-- The best grade stays unless it is beaten. -/
theorem round_grade : s.improves k = false → (s.round k).1.grade = k.grade := by
  have tries := tries_tryMutants (s := s) s.retries k
  have same : s.improves k = (s.tryMutants s.retries k).2.isSome := tries.isSome_eq.symm
  rw [same]
  exact fun stays => (tries.stays stays).2

/-! ## Many rounds -/

/-- The climb behind `n` rounds. -/
def after (s : Setting) (k : Climb) (n : Nat) : Climb :=
  (fun k => (s.round k).1)^[n] k

theorem after_succ (n : Nat) : s.after k (n + 1) = (s.round (s.after k n)).1 :=
  Function.iterate_succ_apply' ..

theorem after_round (n : Nat) : s.after (s.round k).1 n = s.after k (n + 1) := rfl

theorem after_holds (holds : s.Holds k) (n : Nat) : s.Holds (s.after k n) := by
  induction n with
  | zero => exact holds
  | succ n ih =>
      rw [after_succ]
      exact round_holds ih

/-- Grades only change to higher ones. -/
theorem after_grade {n m : Nat} (later : n ≤ m) :
    (s.after k m).grade = (s.after k n).grade
      ∨ (s.after k m).grade.beats (s.after k n).grade = true := by
  induction m, later using Nat.le_induction with
  | base => exact .inl rfl
  | succ m _ ih =>
      rw [after_succ]
      cases improved : s.improves (s.after k m) with
      | false =>
          rw [round_grade improved]
          exact ih
      | true =>
          refine .inr ?_
          rcases ih with same | better
          · exact same ▸ improved
          · exact Grade.beats_trans improved better

/-- The counters of a search that began with none. -/
structure Tallied (s : Setting) (k : Climb) (n : Nat) (stats : Stats) : Prop where
  kinds : stats.mutantsGenerated = stats.byKind
  generated : stats.mutantsGenerated ≤ n * s.retries
  improvements : stats.improvements
    = (List.range n).countP fun i => s.improves (s.after k i)
  least : stats.improvements + stats.mutantsRejected ≤ stats.mutantsGenerated
  most : stats.mutantsGenerated ≤ stats.mutantsRejected + n

theorem after_tallied (fresh : k.stats = {}) (n : Nat) :
    s.Tallied k n (s.after k n).stats := by
  induction n with
  | zero =>
      have started : (s.after k 0).stats = {} := fresh
      rw [started]
      exact ⟨rfl, Nat.zero_le _, rfl, Nat.zero_le _, Nat.zero_le _⟩
  | succ n ih =>
      have step := round_stats (s := s) (k := s.after k n)
      rw [← after_succ] at step
      have product := Nat.add_one_mul n s.retries
      have added : (List.range (n + 1)).countP (fun i => s.improves (s.after k i))
          = ((List.range n).countP fun i => s.improves (s.after k i))
            + (s.improves (s.after k n)).toNat := by
        rw [List.range_succ, List.countP_append, List.countP_singleton]
        cases s.improves (s.after k n) <;> rfl
      obtain ⟨kinds, generated, improvements, least, most⟩ := step
      obtain ⟨kinds', generated', improvements', least', most'⟩ := ih
      constructor <;> omega

theorem after_history (n : Nat) : (s.after k n).history
    = ((List.range n).map fun i => (s.after k (i + 1)).grade).reverse ++ k.history := by
  induction n with
  | zero => rfl
  | succ n ih =>
      rw [after_succ, round_history, ih, List.range_succ, List.map_append, List.reverse_append,
        ← after_succ]
      rfl

/-- No more rounds are stale than there were, and the latest ones are exactly those that did not
improve anything. -/
theorem after_stale (fresh : k.stale = 0) (n : Nat) : (s.after k n).stale ≤ n ∧
    ∀ m ≤ n, m ≤ (s.after k n).stale ↔ ∀ i < n, n ≤ i + m → s.improves (s.after k i) = false := by
  induction n with
  | zero =>
      refine ⟨fresh.le, fun m none => ?_⟩
      simp [Nat.le_zero.1 none]
  | succ n ih =>
      obtain ⟨bounded, streak⟩ := ih
      rw [after_succ, round_stale]
      cases improved : s.improves (s.after k n) with
      | true =>
          rw [if_pos rfl]
          refine ⟨Nat.zero_le _, fun m _ => ⟨fun none i _ _ => by omega, fun still => ?_⟩⟩
          by_contra some_rounds
          have := still n (by omega) (by omega)
          rw [improved] at this
          cases this
      | false =>
          rw [if_neg Bool.false_ne_true]
          refine ⟨by omega, fun m atMost => ?_⟩
          obtain _ | m := m
          · exact iff_of_true (Nat.zero_le _) (fun i _ _ => by omega)
          rw [Nat.add_le_add_iff_right, streak m (by omega)]
          refine ⟨fun still i below above => ?_, fun still i below above => ?_⟩
          · rcases Nat.lt_succ_iff_lt_or_eq.1 below with below | rfl
            · exact still i below (by omega)
            · exact improved
          · exact still i (by omega) (by omega)

/-! ## Where the rounds end -/

variable (s) in
/-- The patience is used up. -/
def isTired (k : Climb) : Bool :=
  Number.countAtLeast k.stale s.patience

/-- The rounds made are the fewest behind which the patience is used up, if the budget has as many,
and otherwise all of the budget. -/
structure Stops (s : Setting) (k : Climb) (budget n : Nat) (reason : StopReason) : Prop where
  within : n ≤ budget
  before : ∀ i, 1 ≤ i → i < n → s.isTired (s.after k i) = false
  early : n < budget → reason = .noImprovement
  tired : reason = .noImprovement ↔ 1 ≤ n ∧ s.isTired (s.after k n) = true

theorem exists_stops : ∀ (budget done : Nat) (k : Climb), ∃ n reason improvements,
    s.rounds budget done k = (s.after k n, done + n, reason, improvements) ∧
      s.Stops k budget n reason
  | 0, done, k => by
      refine ⟨0, .maxIterations, [], rfl, le_rfl, by omega, by omega, ?_⟩
      exact iff_of_false (by simp) (by omega)
  | budget + 1, done, k => by
      unfold rounds
      dsimp only
      split
      · rename_i tired
        refine ⟨1, .noImprovement, _, rfl, by omega, by omega, fun _ => rfl, ?_⟩
        exact iff_of_true rfl ⟨le_rfl, tired⟩
      · rename_i awake
        obtain ⟨n, reason, later, ended, stops⟩ := exists_stops budget (done + 1) (s.round k).1
        rw [ended]
        refine ⟨n + 1, reason, _, by rw [after_round, Nat.add_right_comm, Nat.add_assoc], ?_⟩
        have awake : s.isTired (s.after k 1) = false := Bool.eq_false_of_not_eq_true awake
        refine ⟨Nat.succ_le_succ stops.within, fun i first last => ?_,
          fun less => stops.early (Nat.lt_of_succ_lt_succ less), ?_⟩
        · obtain _ | _ | i := i
          · omega
          · exact awake
          · exact stops.before (i + 1) (by omega) (by omega)
        · rw [stops.tired, after_round]
          refine ⟨fun ⟨_, tired⟩ => ⟨by omega, tired⟩, fun ⟨_, tired⟩ => ⟨?_, tired⟩⟩
          obtain _ | n := n
          · rw [awake] at tired
            cases tired
          · omega

end Setting

end Search

end AlphaFoundry
