/-
# AlphaFoundry.Proofs.Pipeline.Run -- what a run of attempts adds up to

An attempt asks for as many candidates as are missing and gets exactly as many.  `Reached` ties the
progress of a line to the batches that it was given: one attempt keeps it, and therefore a run does.
-/
import Mathlib
import AlphaFoundry.Proofs.Catalog.Sound
import AlphaFoundry.Proofs.Generation.Batch
import AlphaFoundry.Proofs.Number.Count
import AlphaFoundry.Proofs.Pipeline.Sorting

namespace AlphaFoundry

set_option autoImplicit false

namespace Batch

/-- Listing the candidates fails if there is a fault, and gives all of them otherwise. -/
theorem toList_result {p : Batch} {ks : List Candidate} :
    p.toList.result = .ok ks ↔ p.yield.fault = none ∧ p.yield.candidates = ks := by
  unfold toList
  dsimp only
  cases p.yield.fault with
  | none => simp
  | some fault => simp

end Batch

namespace Pipeline.Line

variable {s : Line} {p : Progress}

/-! ## Generated and improved candidates -/

variable (s) in
/-- What becomes of a candidate before it is reviewed: a valid one is improved, if the request says
so and there is an optimizer. -/
def Improves (k k' : Candidate) : Prop :=
  match s.request.optimize, s.optimizer with
  | true, some a =>
    if (s.validator.validate k).accepted then
      ∃ out, (a.search k s.request.iterations).result = .ok out ∧ k' = out.best
    else k' = k
  | _, _ => k' = k

variable (s) in
/-- An attempt asks for so many candidates and gets them, improved. -/
def Draws (attempt wanted : ℕ) (batch : List Candidate) : Prop :=
  ∃ asked p, Number.toInt? asked = some (wanted : ℤ) ∧
    (Generation.plan s.source s.request.tier asked
      { seed := s.seedAt attempt
        neutralization := s.request.neutralization
        maxFieldRepeats := s.request.maxFieldRepeats }).result = .ok p ∧
    p.yield.fault = none ∧ p.yield.candidates.length = wanted ∧
    List.Forall₂ s.Improves p.yield.candidates batch

theorem improves_of_result {a : Optimizer} (asked : s.request.optimize = true)
    (given : s.optimizer = some a) {k k' : Candidate} (ended : (s.improve a k).result = .ok k') :
    s.Improves k k' := by
  unfold Improves
  rw [asked, given]
  dsimp only
  unfold improve at ended
  split at ended
  · rename_i valid
    rw [if_pos valid]
    obtain ⟨out, found, ended⟩ := Logged.bind_result.1 ended
    exact ⟨out, Logged.mapError_result.1 found, (Except.ok.inj ended).symm⟩
  · rename_i refused
    rw [if_neg refused]
    exact (Except.ok.inj ended).symm

theorem forall₂_improves {ks batch : List Candidate} (ended : (s.improveAll ks).result = .ok batch) :
    List.Forall₂ s.Improves ks batch := by
  unfold improveAll at ended
  split at ended
  · rename_i a asked given
    obtain ⟨-, -, ended⟩ := Logged.bind_result.1 ended
    exact (Logged.mapM_result ended).imp fun k k' => improves_of_result asked given
  · rename_i idle
    obtain rfl := Except.ok.inj ended
    refine List.forall₂_same.2 fun k _ => ?_
    unfold Improves
    split
    · rename_i a asked given
      exact (idle a asked given).elim
    · rfl

variable {n : ℕ} (count : Number.toInt? s.request.count = some (n : ℤ))

include count

theorem isEnough_iff : s.isEnough p = true ↔ n ≤ p.accepted.length := by
  unfold isEnough
  rw [Bool.not_eq_true', ← Bool.not_eq_true, Number.countBelow_of_toInt? count]
  omega

theorem toInt?_missing (few : p.accepted.length < n) (small : p.accepted = [] ∨ n ≤ maxBatch) :
    Number.toInt? (s.missing p) = some ((n - p.accepted.length : ℕ) : ℤ) := by
  refine Number.toInt?_sub_ofNat count few.le (small.imp ?_ ?_)
  · exact fun none => none ▸ rfl
  · exact fun bound => bound.trans (by decide)

/-- Few candidates are missing exactly; a great number is asked for only while none is accepted, and
then no attempt can hand it over. -/
theorem generate_draws {ks batch : List Candidate} (few : p.accepted.length < n)
    (small : p.accepted = [] ∨ n ≤ maxBatch) (ended : (s.generate p).result = .ok ks)
    (improved : (s.improveAll ks).result = .ok batch) :
    n ≤ maxBatch ∧ s.Draws p.attempts (n - p.accepted.length) batch := by
  unfold generate at ended
  obtain ⟨plan, made, ended⟩ := Logged.bind_result.1 ended
  obtain ⟨listed, yielded, ended⟩ := Logged.bind_result.1 ended
  split at ended
  swap; · cases ended
  rename_i fits
  obtain rfl := Except.ok.inj ended
  have made := Logged.mapError_result.1 made
  obtain ⟨faultless, rfl⟩ := Batch.toList_result.1 (Logged.mapError_result.1 yielded)
  have asked := toInt?_missing count few small
  have planned := Generation.planned_of_plan made
  have size := (Generation.positive?_eq_some.1 planned.count).1
  rw [asked, Option.some.injEq, Nat.cast_inj] at size
  have length : plan.yield.candidates.length = n - p.accepted.length := by
    rw [size]
    exact Batch.yieldFrom_length _ _ _ faultless
  refine ⟨?_, _, plan, asked, made, faultless, length, forall₂_improves improved⟩
  rcases small with none | bound
  · rw [length, none, List.length_nil, Nat.sub_zero] at fits
    exact fits
  · exact bound

omit count

/-! ## Attempt after attempt -/

variable (s) in
/-- The batch that an attempt reviews. -/
def Gives (p : Progress) (batch : List Candidate) : Prop :=
  ∃ ks, (s.generate p).result = .ok ks ∧ (s.improveAll ks).result = .ok batch

/-- What the progress of a line comes from: the batches that it was given, one for each attempt, and
the candidates dropped from them. -/
structure Comes (s : Line) (p : Progress) (batches : List (List Candidate))
    (dropped : List Candidate) : Prop where
  attempts : batches.length = p.attempts
  sorts : s.Sorts batches.flatten p.accepted p.rejected dropped
  written : s.Written p
  gives : ∀ i batch, batches[i]? = some batch → ∃ before dropped, before.attempts = i ∧
    s.Sorts (batches.take i).flatten before.accepted before.rejected dropped ∧ s.Gives before batch

theorem comes_start : s.Comes {} [] [] where
  attempts := rfl
  sorts := .nil
  written := by simp [Written]
  gives := by simp

/-- How far a line that should accept `n` candidates has come. -/
structure Reached (s : Line) (n : ℕ) (p : Progress) (batches : List (List Candidate))
    (dropped : List Candidate) : Prop extends Comes s p batches dropped where
  atMost : p.accepted.length ≤ n
  small : p.accepted = [] ∨ n ≤ maxBatch
  draws : ∀ i batch, batches[i]? = some batch → ∃ accepted rejected dropped,
    s.Sorts (batches.take i).flatten accepted rejected dropped ∧ accepted.length < n ∧
      s.Draws i (n - accepted.length) batch

theorem reached_start : s.Reached n {} [] [] where
  toComes := comes_start
  atMost := Nat.zero_le n
  small := .inl rfl
  draws := by simp

/-- What an attempt does to the progress. -/
theorem attempt_eq {next : Progress} (ended : (s.attempt p).result = .ok next) :
    ∃ ks batch, (s.generate p).result = .ok ks ∧ (s.improveAll ks).result = .ok batch ∧
      let reviewed := Validator.sort (batch.map s.validator.review)
      let kept := reviewed.accepted.foldl s.kept { p with attempts := p.attempts + 1 }
      next = { kept with rejected := kept.rejected ++ reviewed.rejected } := by
  unfold attempt at ended
  obtain ⟨-, -, ended⟩ := Logged.bind_result.1 ended
  obtain ⟨ks, generated, ended⟩ := Logged.bind_result.1 ended
  obtain ⟨batch, improved, ended⟩ := Logged.bind_result.1 ended
  obtain ⟨-, -, ended⟩ := Logged.bind_result.1 ended
  obtain ⟨reviewed, sorted, ended⟩ := Logged.bind_result.1 ended
  obtain ⟨-, -, sorted⟩ := Logged.bind_result.1 sorted
  obtain rfl := Except.ok.inj sorted
  obtain ⟨kept, folded, ended⟩ := Logged.bind_result.1 ended
  rw [foldlM_keep_result, Except.ok.injEq] at folded
  subst folded
  exact ⟨ks, batch, generated, improved, (Except.ok.inj ended).symm⟩

/-- What holds of the batches so far, each with its number, holds of one batch more. -/
theorem forall_batches_concat {batches : List (List Candidate)} {batch : List Candidate}
    {P : ℕ → List (List Candidate) → List Candidate → Prop}
    (each : ∀ i later, batches[i]? = some later → P i (batches.take i) later)
    (last : P batches.length batches batch) (i : ℕ) (later : List Candidate)
    (found : (batches ++ [batch])[i]? = some later) : P i ((batches ++ [batch]).take i) later := by
  rcases Nat.lt_or_ge i batches.length with before | behind
  · rw [List.getElem?_append_left before] at found
    rw [List.take_append_of_le_length before.le]
    exact each i later found
  · have bound := (List.getElem?_eq_some_iff.1 found).1
    obtain rfl : i = batches.length := by
      rw [List.length_append, List.length_singleton] at bound
      omega
    rw [List.getElem?_concat_length, Option.some.injEq] at found
    subst found
    rw [List.take_left]
    exact last

theorem attempt_comes {batches : List (List Candidate)} {dropped : List Candidate}
    {next : Progress} (comes : s.Comes p batches dropped)
    (ended : (s.attempt p).result = .ok next) : next.attempts = p.attempts + 1 ∧
      ∃ batch dropped', s.Gives p batch ∧
        next.accepted.length ≤ p.accepted.length + batch.length ∧
        s.Comes next (batches ++ [batch]) dropped' := by
  obtain ⟨ks, batch, generated, improved, rfl⟩ := attempt_eq ended
  set reviewed := Validator.sort (batch.map s.validator.review)
  obtain ⟨attempts, rejected⟩ :=
    foldl_kept_frame (s := s) reviewed.accepted { p with attempts := p.attempts + 1 }
  obtain ⟨written, dropped', sorts⟩ :=
    Sorts.batch (p := { p with attempts := p.attempts + 1 }) batch comes.sorts comes.written
  have size := foldl_kept_length (s := s) reviewed.accepted { p with attempts := p.attempts + 1 }
  set kept := reviewed.accepted.foldl s.kept { p with attempts := p.attempts + 1 }
  refine ⟨attempts, batch, dropped', ⟨ks, generated, improved⟩, ?_, ?_⟩
  · have valid : reviewed.accepted.length ≤ batch.length :=
      (List.length_filter_le ..).trans (List.length_map ..).le
    show kept.accepted.length ≤ _
    dsimp only at size
    omega
  constructor
  case attempts =>
    rw [List.length_append, comes.attempts]
    exact attempts.symm
  case sorts =>
    rw [List.flatten_append, List.flatten_singleton]
    show s.Sorts _ kept.accepted (kept.rejected ++ reviewed.rejected) dropped'
    rw [rejected]
    exact sorts
  case written => exact written
  case gives =>
    exact forall_batches_concat (P := fun i earlier later => ∃ before dropped,
      before.attempts = i ∧ s.Sorts earlier.flatten before.accepted before.rejected dropped ∧
        s.Gives before later) comes.gives
      ⟨p, dropped, comes.attempts.symm, comes.sorts, ks, generated, improved⟩

theorem attempts_comes : ∀ (m : ℕ) {p last : Progress} {batches : List (List Candidate)}
    {dropped : List Candidate}, s.Comes p batches dropped → (s.attempts m p).result = .ok last →
      ∃ batches dropped, s.Comes last batches dropped
  | 0, p, last, batches, dropped, comes, ended => by
      obtain rfl := Except.ok.inj ended
      exact ⟨batches, dropped, comes⟩
  | m + 1, p, last, batches, dropped, comes, ended => by
      unfold attempts at ended
      split at ended
      · obtain rfl := Except.ok.inj ended
        exact ⟨batches, dropped, comes⟩
      · obtain ⟨next, attempted, ended⟩ := Logged.bind_result.1 ended
        obtain ⟨-, batch, dropped', -, -, comes⟩ := attempt_comes comes attempted
        exact attempts_comes m comes ended

theorem attempt_reached (count : Number.toInt? s.request.count = some (n : ℤ))
    {batches : List (List Candidate)} {dropped : List Candidate} {next : Progress}
    (reached : s.Reached n p batches dropped) (few : p.accepted.length < n)
    (ended : (s.attempt p).result = .ok next) : next.attempts = p.attempts + 1 ∧
      ∃ batch dropped', s.Reached n next (batches ++ [batch]) dropped' := by
  obtain ⟨attempts, batch, dropped', ⟨ks, generated, improved⟩, size, comes⟩ :=
    attempt_comes reached.toComes ended
  obtain ⟨small, draws⟩ := generate_draws count few reached.small generated improved
  refine ⟨attempts, batch, dropped', comes, ?_, .inr small, ?_⟩
  · obtain ⟨-, plan, -, -, -, length, improves⟩ := draws
    rw [improves.length_eq] at length
    omega
  · refine forall_batches_concat (P := fun i earlier later => ∃ accepted rejected dropped,
      s.Sorts earlier.flatten accepted rejected dropped ∧ accepted.length < n ∧
        s.Draws i (n - accepted.length) later) reached.draws ?_
    exact ⟨p.accepted, p.rejected, dropped, reached.sorts, few, reached.attempts ▸ draws⟩

/-- Attempts end when enough is accepted, or after their number. -/
theorem attempts_reached (count : Number.toInt? s.request.count = some (n : ℤ)) :
    ∀ (m : ℕ) {p last : Progress} {batches : List (List Candidate)} {dropped : List Candidate},
      s.Reached n p batches dropped → (s.attempts m p).result = .ok last →
        last.attempts ≤ p.attempts + m ∧
        (last.accepted.length < n → last.attempts = p.attempts + m) ∧
        ∃ batches dropped, s.Reached n last batches dropped
  | 0, p, last, batches, dropped, reached, ended => by
      obtain rfl := Except.ok.inj ended
      exact ⟨le_rfl, fun _ => rfl, batches, dropped, reached⟩
  | m + 1, p, last, batches, dropped, reached, ended => by
      unfold attempts at ended
      split at ended
      · rename_i enough
        obtain rfl := Except.ok.inj ended
        have enough := (isEnough_iff count).1 enough
        exact ⟨Nat.le_add_right .., fun few => by omega, batches, dropped, reached⟩
      · rename_i missing
        rw [isEnough_iff count, Nat.not_le] at missing
        obtain ⟨next, attempted, ended⟩ := Logged.bind_result.1 ended
        obtain ⟨one, batch, dropped', reached⟩ := attempt_reached count reached missing attempted
        obtain ⟨most, all, arrived⟩ := attempts_reached count m reached ended
        exact ⟨by omega, fun few => by rw [all few]; omega, arrived⟩

/-- A run that has what it needs returns what its attempts do; what is missing is only noted. -/
theorem run_eq_ok {last : Progress} : s.run.result = .ok last ↔
    ¬(s.request.optimize && s.optimizer.isNone) = true ∧
      (s.attempts (Number.countsBelow s.request.maxAttempts) {}).result = .ok last := by
  unfold run
  split
  · rename_i idle
    exact ⟨nofun, fun ready => absurd idle ready.1⟩
  · rename_i ready
    refine ⟨fun ended => ⟨ready, ?_⟩, fun ended => ?_⟩
    · obtain ⟨last', attempted, ended⟩ := Logged.bind_result.1 ended
      split at ended
      · exact attempted.trans ended
      · obtain ⟨-, -, ended⟩ := Logged.bind_result.1 ended
        exact attempted.trans ended
    · rw [Logged.bind_of_ok ended.2]
      split <;> rfl

/-- What a run returns: at most as many accepted candidates as requested, no two of them written
alike, and fewer only if no attempt was left.  Every candidate that was generated, each attempt
asking for those still missing, was accepted, rejected, or dropped as written like an accepted one. -/
theorem run_sorts (s : Line) {n m : ℕ} {last : Progress}
    (count : Number.toInt? s.request.count = some (n : ℤ))
    (limit : Number.toInt? s.request.maxAttempts = some (m : ℤ))
    (ended : s.run.result = .ok last) :
    last.accepted.length ≤ n ∧ (last.accepted.map s.text).Nodup ∧
    (∀ k ∈ last.accepted, k.status = .accepted ∧ k.report = some ⟨true, []⟩) ∧
    (∀ k ∈ last.rejected, k.status = .rejected ∧
      ∃ report, k.report = some report ∧ report.violations ≠ []) ∧
    last.attempts ≤ m ∧ (last.accepted.length < n → last.attempts = m) ∧
    ∃ (batches : List (List Candidate)) (dropped : List Candidate),
      batches.length = last.attempts ∧
      s.Sorts batches.flatten last.accepted last.rejected dropped ∧
      (last.accepted ++ last.rejected ++ dropped).Perm (batches.flatten.map s.validator.review) ∧
      ∀ i batch, batches[i]? = some batch → ∃ accepted rejected dropped,
        s.Sorts (batches.take i).flatten accepted rejected dropped ∧ accepted.length < n ∧
          s.Draws i (n - accepted.length) batch := by
  unfold run at ended
  split at ended
  · cases ended
  obtain ⟨last', attempted, ended⟩ := Logged.bind_result.1 ended
  obtain rfl : last' = last := by
    split at ended
    · exact Except.ok.inj ended
    · obtain ⟨-, -, ended⟩ := Logged.bind_result.1 ended
      exact Except.ok.inj ended
  rw [Number.countsBelow_of_toInt? limit] at attempted
  obtain ⟨most, all, batches, dropped, reached⟩ :=
    attempts_reached count m reached_start attempted
  rw [Nat.zero_add] at most all
  have sorts := reached.sorts
  exact ⟨reached.atMost, sorts.nodup, sorts.of_accepted, sorts.of_rejected, most, all, batches,
    dropped, reached.attempts, sorts, sorts.perm, reached.draws⟩

/-- A validator that is stricter than the generator, so that a first attempt is not enough. -/
def strict : Line where
  catalog := .small
  source := .small
  validator := { catalog := .small, cap := 2 }
  optimizer := some { catalog := .small, validator := { catalog := .small, cap := 2 } }
  request :=
    { tier := "creative", count := 2, optimize := true, iterations := 1, maxAttempts := 2,
      seed := some 1 }

theorem run_sorts_strict : ∃ last, strict.run.result = .ok last ∧
    last.accepted.length = 2 ∧ last.rejected.length = 1 ∧ last.attempts = 2 ∧
    ∃ (batches : List (List Candidate)) (dropped : List Candidate), batches.length = 2 ∧
      strict.Sorts batches.flatten last.accepted last.rejected dropped := by
  have count : Number.toInt? strict.request.count = some (2 : ℕ) := by decide +kernel
  have limit : Number.toInt? strict.request.maxAttempts = some (2 : ℕ) := by decide +kernel
  have sizes : (strict.run.result.toOption.map fun last =>
      (last.accepted.length, last.rejected.length, last.attempts)) = some (2, 1, 2) := by
    decide +kernel
  obtain ⟨last, ended, sizes⟩ := Option.map_eq_some_iff.1 sizes
  obtain ⟨accepted, rejected, attempts⟩ := by simpa only [Prod.mk.injEq] using sizes
  have ended := except_toOption_eq_some.1 ended
  obtain ⟨-, -, -, -, -, -, batches, dropped, length, sorts, -⟩ := run_sorts strict count limit ended
  exact ⟨last, ended, accepted, rejected, attempts, batches, dropped, length.trans attempts, sorts⟩

end Pipeline.Line

end AlphaFoundry
