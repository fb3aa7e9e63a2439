/-
# AlphaFoundry.Proofs.Rng.Period -- the cycle of the stream

From every state the stream passes through all states below 2 ^ 31 before it comes back
(`after_eq_iff`, `exists_after`).  After `n` steps a state differs from the first by the sum of `n`
powers of the multiplier, times an odd number.  The multiplier is one modulo 4, so that sum has as
many factors 2 as `n` has, and 2 ^ 31 divides it exactly if it divides `n`.

So any 2 ^ 31 draws in a row are all the states, in some order.  A whole number scaled from a draw
takes each of its values for a stretch of states, and the stretches differ in length by at most one
(`draws_cycle`).
-/
import Mathlib
import AlphaFoundry.Proofs.Number.Count
import AlphaFoundry.Proofs.Rng.Draw

namespace AlphaFoundry

set_option autoImplicit false

/-! ## Factors of two -/

/-- For a base that is one modulo 4, the sum of `n` powers has as many factors 2 as `n`. -/
theorem two_pow_dvd_geom_sum_iff {a : ℤ} (base : 4 ∣ a - 1) (other : a ≠ 1) (k n : ℕ) :
    2 ^ k ∣ ∑ i ∈ Finset.range n, a ^ i ↔ 2 ^ k ∣ n := by
  have finite : FiniteMultiplicity 2 (a - 1) :=
    Int.finiteMultiplicity_iff.2 ⟨by decide, sub_ne_zero.2 other⟩
  have lifted := Int.two_pow_sub_pow' n base (by omega)
  rw [one_pow, ← geom_sum_mul, emultiplicity_mul Int.prime_two, add_comm] at lifted
  have same : emultiplicity 2 (∑ i ∈ Finset.range n, a ^ i) = emultiplicity 2 (n : ℤ) :=
    WithTop.add_left_cancel (finiteMultiplicity_iff_emultiplicity_ne_top.1 finite) lifted
  rw [pow_dvd_iff_le_emultiplicity, same, ← pow_dvd_iff_le_emultiplicity]
  exact_mod_cast Iff.rfl

namespace Rng

/-! ## The stream of a seed -/

/-- A stream keeps the whole value of its seed, however large. -/
theorem seeded_of_toInt? {x : Float} {n : ℤ} (whole : Number.toInt? x = some n) :
    Rng.seeded x = Rng.ofInt n := by
  obtain ⟨b, form, quotient⟩ := Number.exists_ofFloat?_of_toInt? whole
  have nonzero : (b.denominator : ℤ) ≠ 0 := by exact_mod_cast b.denominator_pos.ne'
  unfold Rng.seeded
  rw [form]
  dsimp only [Number.Binary.whole]
  rw [quotient, Int.mul_tdiv_cancel _ nonzero]

theorem ofInt_lt (seed : ℤ) : (ofInt seed).state < modulus :=
  Nat.mod_lt _ (by decide)

/-- The stream after a number of draws. -/
def after (r : Rng) (n : ℕ) : Rng :=
  (fun s => s.next.2)^[n] r

variable {r : Rng}

theorem after_succ (r : Rng) (n : ℕ) : r.after (n + 1) = (r.after n).next.2 :=
  Function.iterate_succ_apply' _ n r

theorem after_add (r : Rng) (m n : ℕ) : r.after (m + n) = (r.after n).after m :=
  Function.iterate_add_apply _ m n r

theorem state_after_succ (r : Rng) (n : ℕ) :
    (r.after (n + 1)).state = (1103515245 * (r.after n).state + 12345) % modulus := by
  rw [after_succ, ← step_eq]
  rfl

theorem after_lt (small : r.state < modulus) (n : ℕ) : (r.after n).state < modulus := by
  cases n with
  | zero => exact small
  | succ n =>
      rw [state_after_succ]
      exact Nat.mod_lt _ (by decide)

/-! ## The period -/

/-- The increments of `n` steps, each multiplied by the steps behind it, add up to a sum of
powers. -/
theorem state_after (r : Rng) (n : ℕ) :
    ((r.after n).state : ℤ) ≡
      1103515245 ^ n * r.state + 12345 * ∑ i ∈ Finset.range n, 1103515245 ^ i [ZMOD modulus] := by
  induction n with
  | zero =>
      rw [Finset.range_zero, Finset.sum_empty, pow_zero, one_mul, mul_zero, add_zero]
      rfl
  | succ n ih =>
      calc ((r.after (n + 1)).state : ℤ)
          = (1103515245 * (r.after n).state + 12345) % modulus := by
            rw [state_after_succ]
            push_cast
            rfl
        _ ≡ 1103515245 * (r.after n).state + 12345 [ZMOD modulus] := Int.mod_modEq _ _
        _ ≡ 1103515245 * (1103515245 ^ n * r.state
              + 12345 * ∑ i ∈ Finset.range n, 1103515245 ^ i) + 12345 [ZMOD modulus] :=
            (ih.mul_left _).add_right _
        _ = 1103515245 ^ (n + 1) * r.state
              + 12345 * ∑ i ∈ Finset.range (n + 1), 1103515245 ^ i := by
            rw [geom_sum_succ, pow_succ]
            ring

/-- What a state gains in `n` steps is a sum of powers, times an odd number. -/
theorem state_after_sub (r : Rng) (n : ℕ) :
    ((r.after n).state : ℤ) - r.state ≡
      (∑ i ∈ Finset.range n, 1103515245 ^ i) * (1103515244 * r.state + 12345) [ZMOD modulus] := by
  have powers := geom_sum_mul (1103515245 : ℤ) n
  calc ((r.after n).state : ℤ) - r.state
      ≡ 1103515245 ^ n * r.state + 12345 * ∑ i ∈ Finset.range n, 1103515245 ^ i - r.state
          [ZMOD modulus] := (state_after r n).sub_right _
    _ = (∑ i ∈ Finset.range n, 1103515245 ^ i) * (1103515244 * r.state + 12345) := by
        linear_combination -(r.state : ℤ) * powers

/-- A state comes back after the multiples of 2 ^ 31 steps, and at no other time. -/
theorem after_eq_self_iff (small : r.state < modulus) (n : ℕ) :
    r.after n = r ↔ modulus ∣ n := by
  have size : (modulus : ℤ) = 2 ^ 31 := by norm_num [modulus]
  have odd : IsCoprime (2 ^ 31 : ℤ) (1103515244 * r.state + 12345) :=
    IsCoprime.pow_left ⟨-(551757622 * r.state + 6172), 1, by ring⟩
  calc r.after n = r
      ↔ (r.after n).state = r.state := by
        cases r
        exact Rng.mk.injEq _ _ ▸ Iff.rfl
    _ ↔ r.state ≡ (r.after n).state [MOD modulus] :=
        ⟨fun same => same ▸ rfl,
          fun same => (Nat.ModEq.eq_of_lt_of_lt same small (after_lt small n)).symm⟩
    _ ↔ (modulus : ℤ) ∣ (r.after n).state - r.state := Nat.modEq_iff_dvd
    _ ↔ (modulus : ℤ) ∣
          (∑ i ∈ Finset.range n, 1103515245 ^ i) * (1103515244 * r.state + 12345) :=
        (state_after_sub r n).dvd_iff
    _ ↔ 2 ^ 31 ∣ ∑ i ∈ Finset.range n, (1103515245 : ℤ) ^ i := by
        rw [size]
        exact ⟨odd.dvd_of_dvd_mul_right, fun divides => divides.mul_right _⟩
    _ ↔ 2 ^ 31 ∣ n := two_pow_dvd_geom_sum_iff (by decide) (by decide) 31 n
    _ ↔ modulus ∣ n := Iff.rfl

/-- Two draws leave the same stream exactly if a whole number of periods lies between them. -/
theorem after_eq_iff (small : r.state < modulus) (j k : ℕ) :
    r.after j = r.after k ↔ j ≡ k [MOD modulus] := by
  wlog le : j ≤ k
  · rw [eq_comm, this small k j (Nat.le_of_not_le le)]
    exact Nat.ModEq.comm
  obtain ⟨d, rfl⟩ := Nat.exists_eq_add_of_le' le
  rw [after_add, eq_comm, after_eq_self_iff (after_lt small j)]
  exact (Nat.modEq_iff_dvd' le).trans (by rw [Nat.add_sub_cancel]) |>.symm

theorem state_injective {s t : Rng} (same : s.state = t.state) : s = t := by
  cases s
  cases t
  exact congrArg Rng.mk same

/-- The states of one period are all states, in some order. -/
theorem states_injOn (small : r.state < modulus) (start : ℕ) :
    Set.InjOn (fun k => (r.after (start + k)).state) (Finset.range modulus) := by
  intro j below k below' same
  have again := (after_eq_iff small _ _).1 (state_injective same)
  exact (Nat.ModEq.add_left_cancel' start again).eq_of_lt_of_lt
    (Finset.mem_range.1 (Finset.mem_coe.1 below)) (Finset.mem_range.1 (Finset.mem_coe.1 below'))

theorem image_states (small : r.state < modulus) (start : ℕ) :
    (Finset.range modulus).image (fun k => (r.after (start + k)).state)
      = Finset.range modulus := by
  refine Finset.eq_of_subset_of_card_le (Finset.image_subset_iff.2 fun k _ => ?_) ?_
  · exact Finset.mem_range.2 (after_lt small (start + k))
  · rw [Finset.card_image_of_injOn (states_injOn small start)]

/-- Every state is reached within one period. -/
theorem exists_after (small : r.state < modulus) {s : ℕ} (below : s < modulus) :
    ∃ k < modulus, (r.after k).state = s := by
  have reached := Finset.mem_range.2 below
  rw [← image_states small 0] at reached
  obtain ⟨k, within, found⟩ := Finset.mem_image.1 reached
  rw [Nat.zero_add] at found
  exact ⟨k, Finset.mem_range.1 within, found⟩

/-- A period of draws has a property as often as there are states with it. -/
theorem card_draws (small : r.state < modulus) (start : ℕ) (p : ℕ → Prop) [DecidablePred p] :
    ((Finset.range modulus).filter fun k => p (r.after (start + k)).next.1).card
      = ((Finset.range modulus).filter p).card := by
  have drawn (k : ℕ) : (r.after (start + k)).next.1 = (r.after (start + 1 + k)).state := by
    rw [Nat.add_right_comm, after_succ]
    rfl
  simp only [drawn]
  conv_rhs => rw [← image_states small (start + 1), Finset.filter_image]
  refine (Finset.card_image_of_injOn ?_).symm
  exact (states_injOn small (start + 1)).mono (Finset.coe_subset.2 (Finset.filter_subset _ _))

/-! ## Stretches of states -/

section Stretches

variable {m n q : ℕ}

theorem le_mul_ceilDiv (positive : 0 < n) (x : ℕ) : x ≤ n * (x ⌈/⌉ n) :=
  (ceilDiv_le_iff_le_mul positive).1 le_rfl

theorem mul_ceilDiv_lt (positive : 0 < n) (x : ℕ) : n * (x ⌈/⌉ n) < x + n := by
  cases up : x ⌈/⌉ n with
  | zero => omega
  | succ c =>
      have more : ¬x ≤ n * c := fun less => by
        have := (ceilDiv_le_iff_le_mul positive).2 less
        omega
      rw [Nat.mul_succ]
      omega

/-- The states that are scaled to the value `q` of `n`. -/
theorem filter_scaled (wide : 0 < m) (positive : 0 < n) (less : q < n) :
    ((Finset.range m).filter fun s => s * n / m = q)
      = Finset.Ico (q * m ⌈/⌉ n) ((q + 1) * m ⌈/⌉ n) := by
  ext s
  have scaled : s * n / m = q ↔ q * m ≤ n * s ∧ n * s < (q + 1) * m := by
    rw [Nat.mul_comm n s, Nat.div_eq_iff wide, Nat.succ_mul]
    omega
  have ended : s < (q + 1) * m ⌈/⌉ n ↔ n * s < (q + 1) * m := by
    rw [← not_le, ceilDiv_le_iff_le_mul positive, not_le]
  rw [Finset.mem_filter, Finset.mem_range, scaled, Finset.mem_Ico, ceilDiv_le_iff_le_mul positive,
    ended]
  refine ⟨fun inside => inside.2, fun inside => ⟨?_, inside⟩⟩
  -- The last stretch ends with the last state.
  have last : (q + 1) * m ≤ n * m := Nat.mul_le_mul_right m less
  exact Nat.lt_of_mul_lt_mul_left (inside.2.trans_le last)

/-- Each stretch is as long as the part that `n` values have of all states, rounded down or up. -/
theorem card_scaled (wide : 0 < m) (positive : 0 < n) (less : q < n) :
    ((Finset.range m).filter fun s => s * n / m = q).card = m / n ∨
      ((Finset.range m).filter fun s => s * n / m = q).card = m ⌈/⌉ n := by
  rw [filter_scaled wide positive less, Nat.card_Ico]
  set first := q * m ⌈/⌉ n with starts
  set next := (q + 1) * m ⌈/⌉ n with ends
  have length : n * (next - first) = n * next - n * first := Nat.mul_sub n next first
  have := le_mul_ceilDiv positive (q * m)
  have := mul_ceilDiv_lt positive (q * m)
  have := le_mul_ceilDiv positive ((q + 1) * m)
  have := mul_ceilDiv_lt positive ((q + 1) * m)
  rw [← starts, ← ends, Nat.succ_mul] at *
  by_cases fits : n * (next - first) ≤ m
  · left
    refine (Nat.div_eq_of_lt_le ?_ ?_).symm
    · rw [Nat.mul_comm]
      exact fits
    · rw [Nat.succ_mul, Nat.mul_comm]
      omega
  · right
    refine le_antisymm ?_ ((ceilDiv_le_iff_le_mul positive).2 (by omega))
    by_contra more
    have up := le_mul_ceilDiv positive m
    have : n * (m ⌈/⌉ n + 1) ≤ n * (next - first) := Nat.mul_le_mul_left n (by omega)
    rw [Nat.mul_succ] at this
    omega

end Stretches

/-! ## Whole numbers in a range -/

/-- A whole number is drawn if the draw is scaled to its place in the range. -/
theorem between_eq_iff {low high v : ℤ} {n q : ℕ} (width : (n : ℤ) = high - low + 1)
    (place : (q : ℤ) = v - low) (r : Rng) :
    (r.between (low : ℚ) high).1 = v ↔ r.next.1 * n / modulus = q := by
  have scaled (d : ℕ) : ⌊(Scale.share d : ℚ) * (high - low + 1)⌋ = ((d * n / modulus : ℕ) : ℤ) := by
    have share : (Scale.share d : ℚ) * (high - low + 1) = ((d * n : ℕ) : ℤ) / (modulus : ℕ) := by
      have width : (n : ℚ) = high - low + 1 := by exact_mod_cast width
      show (d : ℚ) / 2147483648 * (high - low + 1) = _
      rw [← width, div_mul_eq_mul_div]
      push_cast
      rfl
    rw [share, Rat.floor_intCast_div_natCast]
    rfl
  rw [between_eq, scaled]
  norm_cast
  omega

theorem between_snd (low high : ℚ) (r : Rng) : (r.between low high).2 = r.next.2 := rfl

/-- How often one value comes up among 2 ^ 31 whole numbers that are drawn one after another from a
range, the first of them behind `start` other draws. -/
def timesDrawn (r : Rng) (start : ℕ) (low high v : ℤ) : ℕ :=
  ((Finset.range modulus).filter fun k =>
    ((r.after (start + k)).between (low : ℚ) high).1 = v).card

/-- Every value of a range comes up as often as it has its share of all states. -/
theorem timesDrawn_eq (small : r.state < modulus) (start : ℕ) {low high v : ℤ} (least : low ≤ v)
    (most : v ≤ high) :
    r.timesDrawn start low high v = modulus / (high - low + 1).toNat ∨
      r.timesDrawn start low high v = modulus ⌈/⌉ (high - low + 1).toNat := by
  obtain ⟨n, width⟩ := Int.eq_ofNat_of_zero_le (show 0 ≤ high - low + 1 by omega)
  obtain ⟨q, place⟩ := Int.eq_ofNat_of_zero_le (show 0 ≤ v - low by omega)
  have counted : r.timesDrawn start low high v
      = ((Finset.range modulus).filter fun d => d * n / modulus = q).card := by
    unfold timesDrawn
    simp only [between_eq_iff width.symm place.symm]
    exact card_draws small start fun d => d * n / modulus = q
  rw [counted, width, Int.toNat_natCast]
  exact card_scaled (Nat.zero_lt_of_lt small) (by omega) (by omega)

/-- The stream of any whole seed.  Its states are below 2 ^ 31, and each is linear in the one before
although the product is wrapped; two of them are the same exactly if a multiple of 2 ^ 31 steps lies
between them, and every state is reached within 2 ^ 31 steps.  So whole numbers that are drawn one
after another from a range lie in it, and of 2 ^ 31 in a row each value of the range has its share,
rounded down or up. -/
theorem draws_cycle (seed : ℤ) :
    (∀ x : Float, Number.toInt? x = some seed → seeded x = ofInt seed) ∧
    (∀ k, ((ofInt seed).after k).state < modulus ∧
      ((ofInt seed).after (k + 1)).state
        = (1103515245 * ((ofInt seed).after k).state + 12345) % modulus) ∧
    (∀ j k, (ofInt seed).after j = (ofInt seed).after k ↔ j ≡ k [MOD modulus]) ∧
    (∀ s < modulus, ∃ k < modulus, ((ofInt seed).after k).state = s) ∧
    ∀ low high : ℤ, low ≤ high →
      (∀ k, ∃ v : ℤ, low ≤ v ∧ v ≤ high ∧
        ((ofInt seed).after k).between (low : ℚ) high = (↑v, (ofInt seed).after (k + 1))) ∧
      ∀ (start : ℕ) (v : ℤ), low ≤ v → v ≤ high →
        (ofInt seed).timesDrawn start low high v = modulus / (high - low + 1).toNat ∨
        (ofInt seed).timesDrawn start low high v = modulus ⌈/⌉ (high - low + 1).toNat := by
  have small := ofInt_lt seed
  refine ⟨fun x => seeded_of_toInt?, fun k => ⟨after_lt small k, state_after_succ _ k⟩,
    after_eq_iff small, fun s => exists_after small, fun low high ordered => ⟨fun k => ?_,
      fun start v => timesDrawn_eq small start⟩⟩
  obtain ⟨v, drawn, least, most⟩ := between_int ordered ((ofInt seed).after k)
  refine ⟨v, least, most, Prod.ext drawn ?_⟩
  rw [between_snd, after_succ]

/-- The throws of a die, from a seed below zero. -/
theorem draws_cycle_die :
    (∃ v : ℤ, 1 ≤ v ∧ v ≤ 6 ∧
      (ofInt (-7)).between ((1 : ℤ) : ℚ) (6 : ℤ) = (↑v, (ofInt (-7)).after 1)) ∧
    ((ofInt (-7)).timesDrawn 10 1 6 4 = 357913941 ∨
      (ofInt (-7)).timesDrawn 10 1 6 4 = 357913942) := by
  obtain ⟨-, -, -, -, ranges⟩ := draws_cycle (-7)
  obtain ⟨inside, shares⟩ := ranges 1 6 (by decide)
  refine ⟨inside 0, ?_⟩
  have share := shares 10 4 (by decide) (by decide)
  rw [Nat.ceilDiv_eq_add_pred_div] at share
  exact share

end Rng

end AlphaFoundry
