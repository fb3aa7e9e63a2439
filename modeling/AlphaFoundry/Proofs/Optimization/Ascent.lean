/-
# AlphaFoundry.Proofs.Optimization.Ascent -- what a search returns

A search returns a valid formula that is no worse than the one it began with, and an account of its
rounds.  The account is read here as its reader reads it: from the scores alone, without the climbs
that they were taken from.
-/
import AlphaFoundry.Proofs.Catalog.Sound
import AlphaFoundry.Proofs.Optimization.Climb
import AlphaFoundry.Proofs.Validation.Review

namespace AlphaFoundry

set_option autoImplicit false

namespace Search

/-- The best score after each round, from the starting score on. -/
def Result.scores (out : Result) : List Float :=
  out.history.map Grade.toFloat

/-- The score behind round `i + 1` is higher than the one before it. -/
def Rises (scores : List Float) (i : Nat) : Prop :=
  ∃ before after, scores[i]? = some before ∧ scores[i + 1]? = some after ∧ before < after

/-- As many rounds as the patience, or more, up to round `n`, improved nothing. -/
def EndsStreak (scores : List Float) (patience : Float) (n : Nat) : Prop :=
  ∃ m ≤ n, Number.countAtLeast m patience = true ∧ ∀ i < n, n ≤ i + m → ¬Rises scores i

namespace Setting

variable {s : Setting} {k : Climb}

theorem history_eq (started : k.history = [k.grade]) (n : Nat) : (s.after k n).history.reverse
    = (List.range (n + 1)).map fun i => (s.after k i).grade := by
  rw [after_history, started, List.reverse_append, List.reverse_reverse,
    List.range_succ_eq_map, List.map_cons, List.map_map]
  rfl

variable (s k) in
def scoresUpTo (n : Nat) : List Float :=
  (List.range (n + 1)).map fun i => (s.after k i).grade.toFloat

theorem scoresUpTo_length (n : Nat) : (s.scoresUpTo k n).length = n + 1 := by
  rw [scoresUpTo, List.length_map, List.length_range]

theorem scoresUpTo_getElem? {n i : Nat} (within : i ≤ n) :
    (s.scoresUpTo k n)[i]? = some (s.after k i).grade.toFloat := by
  unfold scoresUpTo
  rw [List.getElem?_map, List.getElem?_range (by omega)]
  rfl

theorem scoresUpTo_head? (n : Nat) : (s.scoresUpTo k n).head? = some k.grade.toFloat := by
  rw [List.head?_eq_getElem?, scoresUpTo_getElem? n.zero_le]
  rfl

theorem scoresUpTo_getLast? (n : Nat) :
    (s.scoresUpTo k n).getLast? = some (s.after k n).grade.toFloat := by
  rw [List.getLast?_eq_getElem?, scoresUpTo_length, Nat.add_sub_cancel, scoresUpTo_getElem? le_rfl]

theorem improves_iff_lt (i : Nat) : s.improves (s.after k i) = true ↔
    (s.after k i).grade.toFloat < (s.after k (i + 1)).grade.toFloat := by
  rw [after_succ]
  exact Grade.beats_iff

theorem rises_iff {n i : Nat} (within : i < n) :
    Rises (s.scoresUpTo k n) i ↔ s.improves (s.after k i) = true := by
  rw [improves_iff_lt, Rises, scoresUpTo_getElem? within.le, scoresUpTo_getElem? within]
  simp

/-- The scores tell where the patience is used up. -/
theorem endsStreak_iff (fresh : k.stale = 0) {n i : Nat} (within : i ≤ n) :
    EndsStreak (s.scoresUpTo k n) s.patience i ↔ s.isTired (s.after k i) = true := by
  obtain ⟨bounded, streak⟩ := after_stale (s := s) fresh i
  have still (m : Nat) (some_rounds : m ≤ i) : m ≤ (s.after k i).stale ↔
      ∀ j < i, i ≤ j + m → ¬Rises (s.scoresUpTo k n) j := by
    rw [streak m some_rounds]
    refine forall₂_congr fun j below => imp_congr_right fun _ => ?_
    rw [rises_iff (by omega), Bool.not_eq_true]
  refine ⟨fun ⟨m, some_rounds, enough, flat⟩ => ?_, fun tired => ?_⟩
  · exact Number.countAtLeast_mono enough ((still m some_rounds).2 flat)
  · exact ⟨(s.after k i).stale, bounded, tired, (still _ bounded).1 le_rfl⟩

theorem rises_count (n : Nat) :
    (((s.scoresUpTo k n).zip (s.scoresUpTo k n).tail).countP fun step => step.1 < step.2)
      = (List.range n).countP fun i => s.improves (s.after k i) := by
  have steps : (s.scoresUpTo k n).zip (s.scoresUpTo k n).tail = (List.range n).map fun i =>
      ((s.after k i).grade.toFloat, (s.after k (i + 1)).grade.toFloat) := by
    unfold scoresUpTo
    refine List.ext_getElem (by simp) fun i _ _ => ?_
    simp
  rw [steps, List.countP_map]
  congr 1
  funext i
  exact Bool.eq_iff_iff.2 (by simpa using (improves_iff_lt i).symm)

/-- A grade that is a number stays one, and does not fall. -/
theorem toFloat_le_after (defined : k.grade ≠ .undefined) {n m : Nat} (later : n ≤ m) :
    (s.after k n).grade.toFloat ≤ (s.after k m).grade.toFloat := by
  rcases after_grade (s := s) (k := k) later with same | better
  · rw [same]
    rcases after_grade (s := s) (k := k) n.zero_le with first | better
    · exact Grade.toFloat_le_refl (first ▸ defined)
    · exact Grade.toFloat_le_refl (Grade.ne_undefined_of_beats better)
  · exact Grade.toFloat_le_of_beats better

theorem toFloat_le_after_iff (n : Nat) :
    k.grade.toFloat ≤ (s.after k n).grade.toFloat ↔ k.grade ≠ .undefined := by
  refine ⟨fun noWorse undefined => ?_, fun defined => ?_⟩
  · obtain ⟨x, y, value, -⟩ := Number.exists_values_of_le noWorse
    rw [undefined, Grade.value?_undefined] at value
    cases value
  · exact toFloat_le_after (s := s) (k := k) defined (n := 0) n.zero_le

theorem scoresUpTo_pairwise (defined : k.grade ≠ .undefined) (n : Nat) :
    (s.scoresUpTo k n).Pairwise (· ≤ ·) := by
  rw [scoresUpTo, List.pairwise_map]
  exact List.pairwise_lt_range.imp fun less => toFloat_le_after defined less.le

end Setting

end Search

open Search

namespace Optimizer

/-- What a search from a valid candidate returns, with a budget of rounds and a number of mutants
tried in each. -/
structure Ascends (a : Optimizer) (k : Candidate) (budget retries : ℕ) (out : Result) :
    Prop where
  accepted : a.validator.validate out.best = ⟨true, []⟩
  reviewed : out.best.status = .accepted ∧ out.best.report = some ⟨true, []⟩
  score : out.best.score = (a.grade out.best.root).toFloat
  initial : out.initial = a.grade k.root
  /-- The result is no worse, unless the input has a score that compares with nothing. -/
  noWorse : out.initial.toFloat ≤ out.best.score ↔ a.grade k.root ≠ .undefined
  ascending : a.grade k.root ≠ .undefined → out.scores.Pairwise (· ≤ ·)
  length : out.scores.length = out.iterations + 1
  first : out.scores.head? = some out.initial.toFloat
  last : out.scores.getLast? = some out.best.score
  improvements : ((out.scores.zip out.scores.tail).countP fun step => step.1 < step.2)
    = out.stats.improvements
  kinds : out.stats.mutantsGenerated
    = out.stats.fieldsSwapped + out.stats.operatorsSwapped + out.stats.windowsAdjusted
  generated : out.stats.mutantsGenerated ≤ out.iterations * retries
  /-- Of the mutants that are not refused, each round has at most one. -/
  least : out.stats.improvements + out.stats.mutantsRejected ≤ out.stats.mutantsGenerated
  most : out.stats.mutantsGenerated ≤ out.stats.mutantsRejected + out.iterations
  within : out.iterations ≤ budget
  before : ∀ n, 1 ≤ n → n < out.iterations → ¬EndsStreak out.scores a.settings.patience n
  early : out.iterations < budget → out.stopReason = .noImprovement
  tired : out.stopReason = .noImprovement ↔
    1 ≤ out.iterations ∧ EndsStreak out.scores a.settings.patience out.iterations

variable {a : Optimizer} {k : Candidate}

theorem start_holds (accepted : (a.validator.validate k).accepted = true) :
    (a.setting k.tier).Holds (a.start k) :=
  ⟨accepted, rfl⟩

/-- A search ends with the climb behind some rounds, whatever it notes. -/
theorem exists_search {iterations : Float} {budget : ℕ}
    (whole : Number.toInt? iterations = some (budget : ℤ))
    (accepted : (a.validator.validate k).accepted = true) :
    ∃ n reason, (a.setting k.tier).Stops (a.start k) budget n reason ∧
      (a.search k iterations).result = .ok
        ⟨a.validator.review
            { k with
              root := ((a.setting k.tier).after (a.start k) n).best
              score := ((a.setting k.tier).after (a.start k) n).grade.toFloat },
          a.grade k.root, n, reason, ((a.setting k.tier).after (a.start k) n).stats,
          ((a.setting k.tier).after (a.start k) n).history.reverse⟩ := by
  obtain ⟨n, reason, improvements, ended, stops⟩ :=
    Setting.exists_stops (s := a.setting k.tier) budget 0 (a.start k)
  refine ⟨n, reason, stops, ?_⟩
  unfold search
  rw [whole]
  dsimp only [Int.ofNat_eq_natCast]
  rw [if_pos accepted, ended]
  refine Logged.bind_result.2 ⟨_, Logged.forIn_note_result .., ?_⟩
  exact Logged.bind_result.2 ⟨(), rfl, by rw [Nat.zero_add]; rfl⟩

/-- A search that returns has climbed from an accepted candidate. -/
theorem best_of_search {iterations : Float} {out : Result}
    (ended : (a.search k iterations).result = .ok out) :
    ∃ n, out.best = a.validator.review
      { k with
        root := ((a.setting k.tier).after (a.start k) n).best
        score := ((a.setting k.tier).after (a.start k) n).grade.toFloat } := by
  have whole : ∃ budget : ℕ, Number.toInt? iterations = some (budget : ℤ) ∧
      (a.validator.validate k).accepted = true := by
    unfold search at ended
    split at ended
    · rename_i budget whole
      refine ⟨budget, whole, ?_⟩
      dsimp only at ended
      split at ended
      · assumption
      · cases ended
    · cases ended
  obtain ⟨budget, whole, accepted⟩ := whole
  obtain ⟨n, reason, -, found⟩ := exists_search whole accepted
  obtain rfl := Except.ok.inj (ended.symm.trans found)
  exact ⟨n, rfl⟩

/-- The search of an accepted candidate returns an accepted one with an account of the way to it. -/
theorem search_ascends (a : Optimizer) (k : Candidate) {iterations : Float} {budget retries : ℕ}
    (whole : Number.toInt? iterations = some (budget : ℤ))
    (tries : Number.toInt? a.settings.retries = some (retries : ℤ))
    (accepted : (a.validator.validate k).accepted = true) :
    ∃ out, (a.search k iterations).result = .ok out ∧ a.Ascends k budget retries out := by
  obtain ⟨n, reason, stops, ended⟩ := exists_search whole accepted
  refine ⟨_, ended, ?_⟩
  set s := a.setting k.tier
  set started := a.start k
  set last := s.after started n with reached
  set best : Candidate := { k with root := last.best, score := last.grade.toFloat }
  have holds : s.Holds last := Setting.after_holds (start_holds accepted) n
  have valid : (a.validator.validate best).accepted = true := holds.accepted
  have scores : last.history.reverse.map Grade.toFloat = s.scoresUpTo started n := by
    rw [reached, Setting.history_eq rfl, List.map_map]
    rfl
  have tallied : s.Tallied started n last.stats := Setting.after_tallied rfl n
  have retried : s.retries = retries := Number.countsBelow_of_toInt? tries
  have tired (i : ℕ) (within : i ≤ n) : EndsStreak (s.scoresUpTo started n) a.settings.patience i
      ↔ s.isTired (s.after started i) = true := Setting.endsStreak_iff rfl within
  constructor
  case accepted => exact Validator.validate_accepted_iff.1 valid
  case reviewed =>
    rw [Validator.review_of_accepted valid]
    exact ⟨rfl, rfl⟩
  case score => exact congrArg Grade.toFloat holds.graded
  case initial => rfl
  case noWorse => exact Setting.toFloat_le_after_iff (s := s) (k := started) n
  case ascending =>
    intro defined
    rw [Result.scores, scores]
    exact Setting.scoresUpTo_pairwise defined n
  case length => rw [Result.scores, scores, Setting.scoresUpTo_length]
  case first =>
    rw [Result.scores, scores, Setting.scoresUpTo_head?]
    rfl
  case last =>
    rw [Result.scores, scores, Setting.scoresUpTo_getLast?]
    rfl
  case improvements =>
    rw [Result.scores, scores, Setting.rises_count]
    exact tallied.improvements.symm
  case kinds => exact tallied.kinds
  case generated => exact retried ▸ tallied.generated
  case least => exact tallied.least
  case most => exact tallied.most
  case within => exact stops.within
  case before =>
    intro i one less
    rw [Result.scores, scores, tired i less.le, stops.before i one less]
    exact Bool.false_ne_true
  case early => exact stops.early
  case tired =>
    rw [Result.scores, scores, tired n le_rfl]
    exact stops.tired

/-- A field added to itself. -/
def doubled : Candidate where
  id := "creative-0-1"
  tier := .creative
  skeletonId := "additive_pair"
  root := .apply "add" [.field "close", .field "close"] none
  neutralization := "none"
  normalization := "none"
  score := 1
  status := .pending

theorem search_ascends_doubled : ∃ out,
    (Optimizer.search ⟨Catalog.small, { catalog := Catalog.small }, { seed := 3 }⟩ doubled
      12).result = .ok out ∧
    out.stats.improvements = 1 ∧ out.initial.toFloat ≤ out.best.score ∧
    (1 ≤ out.iterations ∧ EndsStreak out.scores 10 out.iterations) := by
  set a : Optimizer := ⟨Catalog.small, { catalog := Catalog.small }, { seed := 3 }⟩
  have whole : Number.toInt? 12 = some (12 : ℕ) := by decide +kernel
  have tries : Number.toInt? a.settings.retries = some (5 : ℕ) := by decide +kernel
  have accepted : (a.validator.validate doubled).accepted = true := by decide +kernel
  have defined : a.grade doubled.root ≠ .undefined := by decide +kernel
  have counted : (a.search doubled 12).result.toOption.map
      (fun out => (out.stats.improvements, out.stopReason)) = some (1, .noImprovement) := by
    decide +kernel
  obtain ⟨out, ended, ascends⟩ := search_ascends a doubled whole tries accepted
  rw [ended] at counted
  obtain ⟨improvements, stopped⟩ := Prod.mk.inj (Option.some.inj counted)
  exact ⟨out, ended, improvements, ascends.noWorse.2 defined, ascends.tired.1 stopped⟩

/-- A sum, wrapped for submission. -/
def wrappedSum : Candidate where
  id := "optimize-0-1"
  tier := .optimize
  skeletonId := "ranked_pair"
  root := .apply "normalize" [.apply "neutralize" [.apply "add"
    [.apply "rank" [.field "close"] none, .field "volume"] none, .field "industry"] none] none
  neutralization := "industry"
  normalization := "normalize"
  score := 0
  status := .pending

/-- Finite weights whose terms overflow against each other. -/
def overflowing : Score.Weights :=
  ⟨1.7e308, 1.7e308, -1.7e308, -1.7e308⟩

/-- With such weights the score of an accepted formula is no number, and so nothing is no worse. -/
theorem search_overflowing :
    [overflowing.diversity, overflowing.robustness, overflowing.normalizeBonus,
      overflowing.neutralizeBonus].all Float.isFinite = true ∧
    (({ catalog := Catalog.small } : Validator).validate wrappedSum).accepted = true ∧
    ((Optimizer.search ⟨Catalog.small, { catalog := Catalog.small }, { weights := overflowing }⟩
        wrappedSum 1).result.toOption.map fun out =>
      (out.initial, decide (out.initial.toFloat ≤ out.best.score))) = some (.undefined, false) := by
  decide +kernel

end Optimizer

end AlphaFoundry
