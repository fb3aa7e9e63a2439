/-
# AlphaFoundry.Proofs.Pipeline.Seeds -- which attempts draw from the same stream

An attempt seeds its batch with the seed of the request and its own number, added as doubles.  A
stream keeps of its seed only the absolute value modulo 2 ^ 31.  So a later attempt draws what an
earlier one drew exactly if the two seeds agree in that, and while the sums are exact that takes
seeds on both sides of zero: `streams_eq_iff`.

Poles: `streams_replay` (the seeds -1 and 1 of a first and a third attempt, and two sums that are
rounded to one double) and `streams_eq_iff_retrying` (the seeds 10 and 12).
-/
import Mathlib
import AlphaFoundry.Proofs.Catalog.Sound
import AlphaFoundry.Proofs.Generation.Plan
import AlphaFoundry.Proofs.Rng.Period
import AlphaFoundry.Pipeline

namespace AlphaFoundry

set_option autoImplicit false

/-! ## What a stream keeps of its seed -/

namespace Rng

theorem ofInt_eq_iff {a b : ℤ} :
    Rng.ofInt a = Rng.ofInt b ↔ a.natAbs % modulus = b.natAbs % modulus := by
  unfold Rng.ofInt
  rw [Rng.mk.injEq]

/-- Seeds that are near each other start the same stream only across zero. -/
theorem ofInt_eq_iff_of_near {a b : ℤ} (before : a < b) (near : b - a < modulus) :
    Rng.ofInt a = Rng.ofInt b ↔ a < 0 ∧ 0 < b ∧ (modulus : ℤ) ∣ a + b := by
  rw [ofInt_eq_iff]
  unfold modulus at *
  omega

end Rng

namespace Pipeline.Line

variable {s : Line} {p q : Progress} {first second : Batch}

variable (s) in
/-- The batch of the attempt that starts from a progress. -/
def Plans (p : Progress) (batch : Batch) : Prop :=
  (Generation.plan s.source s.request.tier (s.missing p) (s.options p)).result = .ok batch

/-- A planned batch draws from the stream of its attempt's seed. -/
theorem Plans.stream (plans : s.Plans p first) :
    ∃ n, Number.toInt? (s.seedAt p.attempts) = some n ∧ first.bench.rng = Rng.ofInt n := by
  have planned := Generation.planned_of_plan plans
  obtain ⟨n, whole⟩ := Option.isSome_iff_exists.1 planned.whole
  refine ⟨n, whole, ?_⟩
  show Rng.seeded first.seed = _
  rw [planned.seed]
  exact Rng.seeded_of_toInt? whole

/-- The seeds of the attempts are exact while they stay within the doubles' range of integers. -/
theorem toInt?_seedAt {seed : Float} {n : ℤ} (given : s.request.seed = some seed)
    (whole : Number.toInt? seed = some n) {i : ℕ} (exact : |n| + i ≤ 2 ^ 53) :
    Number.toInt? (s.seedAt i) = some (n + i) := by
  have small : i ≤ 2 ^ 53 := by
    have := abs_nonneg n
    omega
  unfold seedAt
  rw [given]
  dsimp only
  rw [Number.counter_eq small]
  exact Number.toInt?_add_ofNat whole exact

/-- Two attempts draw from the same stream exactly if their seeds have the same absolute value
modulo 2 ^ 31.  Of two attempts less than 2 ^ 31 apart whose seeds are exact, that holds only if the
seeds lie on both sides of zero and add up to a multiple of 2 ^ 31; so never for a seed from zero
on. -/
theorem streams_eq_iff {seed : Float} {n : ℤ} (given : s.request.seed = some seed)
    (whole : Number.toInt? seed = some n) (before : p.attempts < q.attempts)
    (near : q.attempts - p.attempts < Rng.modulus) (made : s.Plans p first)
    (remade : s.Plans q second) :
    (∃ a b : ℤ, Number.toInt? (s.seedAt p.attempts) = some a ∧
      Number.toInt? (s.seedAt q.attempts) = some b ∧
      (first.bench.rng = second.bench.rng ↔
        a.natAbs % Rng.modulus = b.natAbs % Rng.modulus)) ∧
    (|n| + q.attempts ≤ 2 ^ 53 →
      (first.bench.rng = second.bench.rng ↔
        n + p.attempts < 0 ∧ 0 < n + q.attempts ∧
          (Rng.modulus : ℤ) ∣ (n + p.attempts) + (n + q.attempts))) := by
  obtain ⟨a, early, stream⟩ := made.stream
  obtain ⟨b, late, restream⟩ := remade.stream
  rw [stream, restream]
  refine ⟨⟨a, b, early, late, Rng.ofInt_eq_iff⟩, fun exact => ?_⟩
  have sum : a = n + p.attempts := by
    rw [toInt?_seedAt given whole (by omega), Option.some.injEq] at early
    exact early.symm
  have resum : b = n + q.attempts := by
    rw [toInt?_seedAt given whole exact, Option.some.injEq] at late
    exact late.symm
  rw [sum, resum]
  exact Rng.ofInt_eq_iff_of_near (by omega) (by omega)

/-- Three attempts of one formula each, of which the validator accepts none. -/
def retrying (seed : Float) : Line where
  catalog := .small
  source := .small
  validator := { catalog := .small, cap := 0 }
  optimizer := none
  request :=
    { tier := "basic", count := 1, optimize := false, iterations := 0, maxAttempts := 3,
      seed := some seed }

variable (s) in
/-- The stream of the first attempt of a run and that of the attempt after `n` others. -/
def streams (n : ℕ) : Option (Rng × Rng) := do
  let q ← (s.attempts n {}).result.toOption
  let first ← (Generation.plan s.source s.request.tier (s.missing {}) (s.options {})).result.toOption
  let second ← (Generation.plan s.source s.request.tier (s.missing q) (s.options q)).result.toOption
  if q.attempts = n then return (first.bench.rng, second.bench.rng) else none

theorem exists_plans_of_streams {n : ℕ} {a b : Rng} (drawn : s.streams n = some (a, b)) :
    ∃ q first second, (s.attempts n {}).result = .ok q ∧ q.attempts = n ∧
      s.Plans {} first ∧ s.Plans q second ∧ first.bench.rng = a ∧ second.bench.rng = b := by
  unfold streams at drawn
  obtain ⟨q, ended, drawn⟩ := Option.bind_eq_some_iff.1 drawn
  obtain ⟨first, made, drawn⟩ := Option.bind_eq_some_iff.1 drawn
  obtain ⟨second, remade, drawn⟩ := Option.bind_eq_some_iff.1 drawn
  split at drawn
  · rename_i number
    obtain ⟨early, late⟩ := Prod.mk.inj (Option.some.inj drawn)
    exact ⟨q, first, second, except_toOption_eq_some.1 ended, number,
      except_toOption_eq_some.1 made, except_toOption_eq_some.1 remade, early, late⟩
  · cases drawn

theorem streams_eq_iff_retrying : ∃ q first second,
    ((retrying 10).attempts 2 {}).result = .ok q ∧ q.attempts = 2 ∧
    (retrying 10).Plans {} first ∧ (retrying 10).Plans q second ∧
    first.bench.rng ≠ second.bench.rng := by
  have drawn : (retrying 10).streams 2 = some (⟨10⟩, ⟨12⟩) := by decide +kernel
  obtain ⟨q, first, second, ended, number, made, remade, -⟩ := exists_plans_of_streams drawn
  have whole : Number.toInt? 10 = some 10 := by decide +kernel
  have law := (streams_eq_iff (s := retrying 10) rfl whole (p := {}) (q := q)
    (by rw [number]; decide) (by rw [number]; decide) made remade).2 (by rw [number]; decide)
  exact ⟨q, first, second, ended, number, made, remade,
    fun same => absurd (law.1 same).1 (by decide)⟩

/-- From the seed -1, the third attempt draws the stream of the first one again; and from 2 ^ 53,
where a sum is rounded, so does the second one. -/
theorem streams_replay :
    (∃ q first second, ((retrying (-1)).attempts 2 {}).result = .ok q ∧ q.attempts = 2 ∧
      (retrying (-1)).Plans {} first ∧ (retrying (-1)).Plans q second ∧
      first.bench.rng = second.bench.rng) ∧
    ∃ q first second, ((retrying 9007199254740992).attempts 1 {}).result = .ok q ∧
      q.attempts = 1 ∧ (retrying 9007199254740992).Plans {} first ∧
      (retrying 9007199254740992).Plans q second ∧ first.bench.rng = second.bench.rng := by
  have mirrored : (retrying (-1)).streams 2 = some (⟨1⟩, ⟨1⟩) := by decide +kernel
  have rounded : (retrying 9007199254740992).streams 1 = some (⟨0⟩, ⟨0⟩) := by decide +kernel
  obtain ⟨q, first, second, ended, number, made, remade, early, late⟩ :=
    exists_plans_of_streams mirrored
  obtain ⟨q', first', second', ended', number', made', remade', early', late'⟩ :=
    exists_plans_of_streams rounded
  exact ⟨⟨q, first, second, ended, number, made, remade, early.trans late.symm⟩,
    ⟨q', first', second', ended', number', made', remade', early'.trans late'.symm⟩⟩

end Pipeline.Line

end AlphaFoundry
