/-
# AlphaFoundry.Proofs.Generation.Plan -- what a plan has checked

A planned batch is a checked request with some skeletons of its tier.  `Batch.Planned` collects what
that means for the candidates to come; the notes and the dry runs made on the way do not matter.
-/
import Mathlib
import AlphaFoundry.Generation.Batch
import AlphaFoundry.Proofs.Log

namespace AlphaFoundry

set_option autoImplicit false

theorem except_bind_eq_ok {ε α β : Type} {x : Except ε α} {f : α → Except ε β} {b : β} :
    (x >>= f) = .ok b ↔ ∃ a, x = .ok a ∧ f a = .ok b := by
  cases x with
  | error e => simp [bind, Except.bind]
  | ok a => simp [bind, Except.bind]

theorem except_toOption_eq_some {ε α : Type} {x : Except ε α} {a : α} :
    x.toOption = some a ↔ x = .ok a := by
  cases x <;> simp [Except.toOption]

namespace Generation

variable {c : Catalog} {tier : String} {count : Float} {o : Options} {p : Batch}

theorem positive?_eq_some {x : Float} {n : ℕ} :
    positive? x = some n ↔ Number.toInt? x = some (n : ℤ) ∧ 1 ≤ n := by
  unfold positive?
  split
  · rename_i m whole
    rw [whole, Option.some.injEq, Option.some.injEq]
    simp only [Int.ofNat_eq_natCast]
    omega
  · rename_i other
    refine iff_of_false (by simp) fun ⟨whole, positive⟩ => ?_
    obtain ⟨m, rfl⟩ : ∃ m, n = m + 1 := ⟨n - 1, by omega⟩
    exact other m whole

/-- Dry runs find skeletons among those that they are given. -/
theorem mem_of_mem_feasible {cap : Nat} {range : LiteralRange} {signal : List String} :
    ∀ {ss : List Skeleton} {r : Rng} {found : List Skeleton},
      (feasible c cap range signal ss r).result = .ok found → ∀ s ∈ found, s ∈ ss
  | [], r, found, ended => by
      obtain rfl : [] = found := Except.ok.inj ended
      simp
  | s :: rest, r, found, ended => by
      unfold feasible at ended
      split at ended
      · cases ended
      · obtain ⟨below, rest_ended, ended⟩ := Logged.bind_result.1 ended
        obtain rfl : s :: below = found := Except.ok.inj ended
        intro t member
        rcases List.mem_cons.1 member with rfl | member
        · exact List.mem_cons_self
        · exact List.mem_cons_of_mem _ (mem_of_mem_feasible rest_ended t member)
      · obtain ⟨-, -, ended⟩ := Logged.bind_result.1 ended
        exact fun t member => List.mem_cons_of_mem _ (mem_of_mem_feasible ended t member)

/-- What a planned batch has from its request and its catalog. -/
structure Planned (c : Catalog) (tier : String) (count : Float) (o : Options) (p : Batch) :
    Prop where
  catalog : p.catalog = c
  tier : Tier.ofName? tier = some p.tier
  count : positive? count = some p.count
  cap : positive? o.maxFieldRepeats = some p.cap
  literalRange : p.literalRange = o.literalRange
  range : LiteralRange.isValid p.literalRange = true
  signal : p.signal = signal c
  wrapping : wrappingFor c p.tier o.neutralization = .ok p.wrapping
  seed : p.seed = o.seed
  whole : Number.isWhole o.seed = true
  skeletons : ∀ s ∈ p.skeletons, s ∈ pool p.tier

theorem planned_of_check (checked : check c tier count o = .ok p) : Planned c tier count o p := by
  unfold check at checked
  -- One check after the other; each refuses, or leaves the rest to be read.
  split at checked
  swap; · cases checked
  rename_i t named
  split at checked
  swap; · cases checked
  rename_i n counted
  split at checked
  swap; · cases checked
  rename_i cap capped
  dsimp only at checked
  split at checked
  swap; · cases checked
  rename_i valid
  split at checked
  swap; · cases checked
  rename_i whole
  obtain ⟨wrapping, wrapped, checked⟩ := except_bind_eq_ok.1 checked
  obtain rfl := Except.ok.inj checked
  exact ⟨rfl, named, counted, capped, rfl, valid, rfl, wrapped, rfl, whole, by simp⟩

/-- A request in order passes all checks. -/
theorem check_eq_ok {t : Tier} {n cap : ℕ} {wrapping : Option Wrapping}
    (named : Tier.ofName? tier = some t) (counted : positive? count = some n)
    (capped : positive? o.maxFieldRepeats = some cap)
    (valid : LiteralRange.isValid o.literalRange = true) (whole : Number.isWhole o.seed = true)
    (wrapped : wrappingFor c t o.neutralization = .ok wrapping) :
    check c tier count o = .ok ⟨c, t, n, o.seed, cap, o.literalRange, signal c, [], wrapping⟩ := by
  unfold check
  rw [named, counted, capped]
  simp only [valid, whole, wrapped]
  rfl

/-- A plan is a checked request with skeletons of its tier. -/
theorem planned_of_plan (made : (plan c tier count o).result = .ok p) : Planned c tier count o p := by
  unfold plan at made
  obtain ⟨batch, checked, made⟩ := Logged.bind_result.1 made
  obtain ⟨skeletons, found, made⟩ := Logged.bind_result.1 made
  have planned := planned_of_check (p := batch) (Logged.mapError_result.1 checked)
  have members := mem_of_mem_feasible (Logged.mapError_result.1 found)
  split at made
  · cases made
  · obtain ⟨-, -, made⟩ := Logged.bind_result.1 made
    obtain rfl := Except.ok.inj made
    exact { planned with skeletons := members }

theorem Planned.wrapping_eq_none (planned : Planned c tier count o p) (other : p.tier ≠ .optimize) :
    p.wrapping = none := by
  have wrapped := planned.wrapping
  cases named : p.tier with
  | optimize => exact absurd named other
  | _ =>
      rw [named] at wrapped
      exact (Except.ok.inj wrapped).symm

/-- A tier is planned by its name. -/
theorem Planned.tier_eq {t : Tier} (planned : Planned c tier count o p)
    (named : Tier.ofName? tier = some t) : p.tier = t :=
  Option.some.inj (planned.tier.symm.trans named)

end Generation

end AlphaFoundry
