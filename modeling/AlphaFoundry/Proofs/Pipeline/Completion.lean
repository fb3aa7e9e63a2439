/-
# AlphaFoundry.Proofs.Pipeline.Completion -- lines that run to their end

On the bundled catalog, a request whose numbers are in order can be wrong in its group alone.  If it
is not, every attempt is planned and yields what it asks for, every search returns, and the line
ends, as long as one list can hold what is asked for.  If it is, the first attempt is refused.  One
attempt is shown to return; that all of them do is by induction on their number.
-/
import Mathlib
import AlphaFoundry.Proofs.Config
import AlphaFoundry.Proofs.Generation.Bundled
import AlphaFoundry.Proofs.Optimization.Ascent
import AlphaFoundry.Proofs.Pipeline.Run

namespace AlphaFoundry

set_option autoImplicit false

theorem Tier.ofName?_name (t : Tier) : Tier.ofName? t.name = some t := by
  cases t <;> rfl

namespace Pipeline.Line

/-- A line on the bundled catalog, for `n` formulas of a tier, with all numbers in order. -/
structure Ordered (s : Line) (t : Tier) (n : ℕ) : Prop where
  source : s.source = Catalog.Bundled.catalog
  tier : s.request.tier = t.name
  count : Number.toInt? s.request.count = some (n : ℤ)
  positive : 1 ≤ n
  cap : Number.IsCount s.request.maxFieldRepeats
  iterations : Number.IsCount s.request.iterations
  attempts : Number.IsCount s.request.maxAttempts
  seed : ∃ seed, s.request.seed = some seed ∧ Number.isWhole seed = true
  optimizer : s.request.optimize = true → s.optimizer.isSome = true
  validator : ∀ a ∈ s.optimizer, a.validator = s.validator

variable {s : Line} {t : Tier} {n : ℕ} {p : Progress}

namespace Ordered

theorem seedAt (ordered : s.Ordered t n) (i : ℕ) : Number.isWhole (s.seedAt i) = true := by
  obtain ⟨seed, given, whole⟩ := ordered.seed
  obtain ⟨k, whole⟩ := Option.isSome_iff_exists.1 whole
  unfold Line.seedAt
  rw [given]
  exact Option.isSome_iff_exists.2 (Number.exists_toInt?_add_counter whole i)

/-- An attempt is planned, and its batch is complete. -/
theorem exists_plan (ordered : s.Ordered t n)
    (grouped : t = .optimize → s.request.neutralization ∈ Catalog.Bundled.groups)
    (few : p.accepted.length < n) (small : p.accepted = [] ∨ n ≤ maxBatch) :
    ∃ plan,
      (Generation.plan s.source s.request.tier (s.missing p) (s.options p)).result = .ok plan ∧
      plan.yield.fault = none ∧ plan.yield.candidates.length = n - p.accepted.length := by
  have missing : Number.toInt? (s.missing p) = some ((n - p.accepted.length : ℕ) : ℤ) :=
    toInt?_missing ordered.count few small
  have counted := Generation.positive?_eq_some.2 ⟨missing, by omega⟩
  obtain ⟨cap, whole, positive⟩ := ordered.cap
  have capped := Generation.positive?_eq_some.2 ⟨whole, positive⟩
  obtain ⟨wrapping, wrapped⟩ := Catalog.Bundled.wrappingFor_eq_ok t grouped
  have valid : Generation.LiteralRange.isValid {} = true := by decide +kernel
  have checked := Generation.check_eq_ok (o := s.options p) t.ofName?_name counted capped valid
    (ordered.seedAt p.attempts) wrapped
  obtain ⟨plan, made, faultless, length, -⟩ := Batch.yield_of_check checked
    Catalog.Bundled.supplies fun w => Catalog.Bundled.fits_of_sound
  rw [ordered.source, ordered.tier]
  exact ⟨plan, made, faultless, length⟩

theorem generate_ok (ordered : s.Ordered t n)
    (grouped : t = .optimize → s.request.neutralization ∈ Catalog.Bundled.groups)
    (few : p.accepted.length < n) (held : n ≤ maxBatch) :
    ∃ ks, (s.generate p).result = .ok ks := by
  obtain ⟨plan, made, faultless, length⟩ := ordered.exists_plan grouped few (.inr held)
  refine ⟨plan.yield.candidates, ?_⟩
  unfold generate
  rw [Logged.bind_of_ok (Logged.mapError_result.2 made),
    Logged.bind_of_ok (Logged.mapError_result.2 (Batch.toList_result.2 ⟨faultless, rfl⟩)),
    if_pos (by omega)]
  rfl

/-- A search of an accepted candidate returns, so whatever is given is improved or left alone. -/
theorem improveAll_ok (ordered : s.Ordered t n) (ks : List Candidate) :
    ∃ batch, (s.improveAll ks).result = .ok batch := by
  unfold improveAll
  split
  · rename_i a asked given
    have each (k : Candidate) (_ : k ∈ ks) : ∃ k', (s.improve a k).result = .ok k' := by
      unfold improve
      split
      · rename_i accepted
        rw [← ordered.validator a given] at accepted
        obtain ⟨budget, whole, -⟩ := ordered.iterations
        obtain ⟨_, _, -, found⟩ := Optimizer.exists_search whole accepted
        exact ⟨_, Logged.bind_result.2 ⟨_, Logged.mapError_result.2 found, rfl⟩⟩
      · exact ⟨k, rfl⟩
    obtain ⟨batch, improved⟩ := Logged.exists_mapM_result each
    exact ⟨batch, Logged.bind_result.2 ⟨(), rfl, improved⟩⟩
  · exact ⟨ks, rfl⟩

end Ordered

/-- An attempt fails only where its candidates are generated or improved. -/
theorem exists_attempt {ks batch : List Candidate} (generated : (s.generate p).result = .ok ks)
    (improved : (s.improveAll ks).result = .ok batch) :
    ∃ next, (s.attempt p).result = .ok next := by
  unfold attempt
  rw [Logged.bind_of_ok (a := ()) rfl, Logged.bind_of_ok generated, Logged.bind_of_ok improved,
    Logged.bind_of_ok (a := ()) rfl, Logged.bind_of_ok (Logged.bind_of_ok (a := ()) rfl),
    Logged.bind_of_ok (foldlM_keep_result ..)]
  exact ⟨_, rfl⟩

namespace Ordered

/-- If one list can hold what is asked for, no attempt fails. -/
theorem exists_attempts (ordered : s.Ordered t n)
    (grouped : t = .optimize → s.request.neutralization ∈ Catalog.Bundled.groups)
    (held : n ≤ maxBatch) : ∀ (m : ℕ) {p : Progress} {batches : List (List Candidate)}
      {dropped : List Candidate}, s.Reached n p batches dropped →
        ∃ last, (s.attempts m p).result = .ok last
  | 0, p, _, _, _ => ⟨p, rfl⟩
  | m + 1, p, _, _, reached => by
      unfold Line.attempts
      split
      · exact ⟨p, rfl⟩
      · rename_i missing
        rw [isEnough_iff ordered.count, Nat.not_le] at missing
        obtain ⟨ks, generated⟩ := ordered.generate_ok grouped missing held
        obtain ⟨batch, improved⟩ := ordered.improveAll_ok ks
        obtain ⟨next, attempted⟩ := exists_attempt generated improved
        obtain ⟨-, _, _, reached⟩ := attempt_reached ordered.count reached missing attempted
        obtain ⟨last, ended⟩ := exists_attempts ordered grouped held m reached
        exact ⟨last, (Logged.bind_of_ok attempted).trans ended⟩

end Ordered

end Pipeline.Line

end AlphaFoundry
