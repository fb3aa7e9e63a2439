/-
# AlphaFoundry.Proofs.Optimization.Grade -- grades are ordered as their scores are

A grade is a number of ten-thousandths, and its score is the double nearest to it.  Neighbouring
grades are further apart than doubles of that size, so a grade beats another exactly if its score is
the greater one.  An undefined grade has the score NaN, which compares with nothing.
-/
import Mathlib
import AlphaFoundry.Optimization.Score
import AlphaFoundry.Proofs.Number.Count

namespace AlphaFoundry

set_option autoImplicit false

namespace Grade

open Number

theorem value?_undefined : value? undefined.toFloat = none := by
  cases form : value? undefined.toFloat with
  | none => rfl
  | some a =>
      have nan : undefined.toFloat.isNaN = true := by decide +kernel
      rw [isNaN_of_value? form] at nan
      cases nan

/-- The score of a number of points is a faithful rounding of ten-thousandths. -/
theorem rounds_toFloat (n : Fin 10001) : Rounds (n / 10000) (points n).toFloat := by
  have small : (n : ℕ) ≤ 2 ^ 53 := by omega
  have scale : value? 10000 = some (((10000 : ℤ) : ℝ) : EReal) :=
    toInt?_eq_some.1 (by decide +kernel)
  have rounds := rounds_div (value?_ofNat small) scale (by norm_num)
  rwa [Int.cast_ofNat] at rounds

/-- The score of a grade with points is a real number. -/
theorem exists_value (n : Fin 10001) :
    ∃ v : ℝ, value? (points n).toFloat = some (v : EReal) ∧ Faithful (n / 10000) v := by
  obtain ⟨v, faithful, value⟩ := rounds_toFloat n
  have bound : |v| ≤ ((1 : ℕ) : ℝ) := by
    refine faithful.bounded (Grid.natCast (by norm_num)) ?_
    rw [abs_of_nonneg (by positivity), Nat.cast_one, div_le_one (by norm_num)]
    exact_mod_cast Nat.lt_succ_iff.1 n.isLt
  refine ⟨v, ?_, faithful⟩
  rw [value, clip_coe_of_lt (bound.trans_lt (lt_limit (by norm_num)))]

/-- Between two numbers of points there are two doubles. -/
theorem value_lt {n m : Fin 10001} (less : n < m) {v w : ℝ} (first : Faithful (n / 10000) v)
    (second : Faithful (m / 10000) w) : v < w := by
  have next : (n : ℝ) + 1 ≤ m := by exact_mod_cast less
  have nonneg : (0 : ℝ) ≤ n := Nat.cast_nonneg _
  have most : (m : ℝ) ≤ 10000 := by exact_mod_cast Nat.lt_succ_iff.1 m.isLt
  set z : ℝ := n / 10000 * 2 ^ 15 with scaled
  have above := Int.le_ceil z
  have below := Int.ceil_lt_add_one z
  have positive : 0 ≤ ⌈z⌉ := Int.ceil_nonneg (by positivity)
  have least : (⌈z⌉ : ℝ) < 2 ^ 15 + 1 := by nlinarith
  have least : ⌈z⌉ < 2 ^ 15 + 1 := by exact_mod_cast least
  have grid (k : ℤ) (pos : 0 ≤ k) (small : k ≤ 2 ^ 53) : Grid ((k : ℝ) / 2 ^ 15) := by
    refine ⟨k, -15, by rwa [abs_of_nonneg pos], by norm_num, ?_⟩
    rw [zpow_neg, div_eq_mul_inv]
    norm_num
  have upper : v ≤ (⌈z⌉ : ℝ) / 2 ^ 15 := by
    refine first.above _ (grid _ positive (by omega)) ?_
    rw [le_div_iff₀ (by norm_num)]
    exact above
  have lower : ((⌈z⌉ + 1 : ℤ) : ℝ) / 2 ^ 15 ≤ w := by
    refine second.below _ (grid _ (by omega) (by omega)) ?_
    rw [div_le_iff₀ (by norm_num)]
    push_cast
    linarith
  refine upper.trans_lt (lt_of_lt_of_le ?_ lower)
  push_cast
  gcongr
  linarith

theorem toFloat_lt_of_lt {n m : Fin 10001} (less : n < m) :
    (points n).toFloat < (points m).toFloat := by
  obtain ⟨v, value, first⟩ := exists_value n
  obtain ⟨w, value', second⟩ := exists_value m
  rw [lt_iff value value', EReal.coe_lt_coe_iff]
  exact value_lt less first second

theorem toFloat_le_self (n : Fin 10001) : (points n).toFloat ≤ (points n).toFloat := by
  obtain ⟨v, value, -⟩ := exists_value n
  exact (le_iff value value).2 le_rfl

/-- A grade beats another exactly if its score is greater. -/
theorem beats_iff {g h : Grade} : g.beats h = true ↔ h.toFloat < g.toFloat := by
  have unordered {x y : Float} (nan : value? x = none ∨ value? y = none) : ¬x < y := by
    intro less
    obtain ⟨a, b, hx, hy, -⟩ := exists_values_of_lt less
    rw [hx, hy] at nan
    rcases nan with nan | nan <;> cases nan
  cases g with
  | undefined =>
      exact iff_of_false (by simp [beats]) (unordered (.inr value?_undefined))
  | points n =>
      cases h with
      | undefined => exact iff_of_false (by simp [beats]) (unordered (.inl value?_undefined))
      | points m =>
          obtain ⟨v, value, first⟩ := exists_value n
          obtain ⟨w, value', second⟩ := exists_value m
          simp only [beats, decide_eq_true_eq]
          refine ⟨toFloat_lt_of_lt, fun less => ?_⟩
          rw [lt_iff value' value, EReal.coe_lt_coe_iff] at less
          rcases lt_trichotomy m n with below | rfl | above
          · exact below
          · obtain rfl : v = w := by
              have := value.symm.trans value'
              exact EReal.coe_injective (Option.some.inj this)
            exact absurd less (lt_irrefl v)
          · exact absurd less (value_lt above first second).not_gt

@[simp] theorem beats_self (g : Grade) : g.beats g = false := by
  cases g <;> simp [beats]

theorem beats_trans {g h i : Grade} (first : g.beats h = true) (second : h.beats i = true) :
    g.beats i = true := by
  cases g <;> cases h <;> cases i <;> simp only [beats, decide_eq_true_eq, reduceCtorEq] at *
  omega

/-- What beats something, or is beaten, is defined. -/
theorem ne_undefined_of_beats {g h : Grade} (better : g.beats h = true) : g ≠ undefined := by
  rintro rfl
  cases better

theorem toFloat_le_of_beats {g h : Grade} (better : g.beats h = true) :
    h.toFloat ≤ g.toFloat := by
  obtain ⟨a, b, hx, hy, less⟩ := exists_values_of_lt (beats_iff.1 better)
  exact (le_iff hx hy).2 less.le

theorem toFloat_le_refl {g : Grade} (defined : g ≠ undefined) : g.toFloat ≤ g.toFloat := by
  cases g with
  | undefined => exact absurd rfl defined
  | points n => exact toFloat_le_self n

end Grade

end AlphaFoundry
