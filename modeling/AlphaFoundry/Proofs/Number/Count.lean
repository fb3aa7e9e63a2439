/-
# AlphaFoundry.Proofs.Number.Count -- counts against bounds

Bounds on counts are doubles that a caller chose.  A bound that is a whole number bounds counts as
that number does; one that is not still compares with all counts in the same direction.
-/
import Mathlib
import AlphaFoundry.Proofs.Number.Arithmetic

namespace AlphaFoundry.Number

set_option autoImplicit false

variable {x : Float} {n m : ℕ} {k : ℤ}

/-- More is at least what less is at least. -/
theorem countAtLeast_mono (enough : countAtLeast n x = true) (more : n ≤ m) :
    countAtLeast m x = true := by
  unfold countAtLeast at *
  cases form : Binary.ofFloat? x with
  | none => rwa [form] at enough
  | some b =>
      rw [form] at enough
      simp only [decide_eq_true_eq] at *
      have : (n : ℤ) * b.denominator ≤ m * b.denominator := by
        exact_mod_cast Nat.mul_le_mul_right _ more
      omega

/-- The exact form of a whole number has it for its quotient. -/
theorem exists_ofFloat?_of_toInt? (whole : toInt? x = some k) :
    ∃ b, Binary.ofFloat? x = some b ∧ b.numerator = k * b.denominator := by
  obtain ⟨b, form, value⟩ := exists_ofFloat?_of_value? (toInt?_eq_some.1 whole)
  have nonzero : (b.denominator : ℝ) ≠ 0 := by exact_mod_cast b.denominator_pos.ne'
  refine ⟨b, form, ?_⟩
  rw [b.value_eq_div, div_eq_iff nonzero] at value
  exact_mod_cast value

theorem countBelow_of_toInt? (whole : toInt? x = some k) : countBelow n x = true ↔ n < k := by
  obtain ⟨b, form, quotient⟩ := exists_ofFloat?_of_toInt? whole
  have pos : (0 : ℤ) < b.denominator := by exact_mod_cast b.denominator_pos
  unfold countBelow
  simp only [form, quotient, decide_eq_true_eq]
  exact mul_lt_mul_iff_left₀ pos

/-- As many counts are below a whole number as it says. -/
theorem countsBelow_of_toInt? (whole : toInt? x = some (n : ℤ)) : countsBelow x = n := by
  obtain ⟨b, form, quotient⟩ := exists_ofFloat?_of_toInt? whole
  have nonzero : (b.denominator : ℤ) ≠ 0 := by exact_mod_cast b.denominator_pos.ne'
  unfold countsBelow
  rw [form]
  dsimp only [Binary.ceil]
  rw [quotient, ← neg_mul, Int.mul_ediv_cancel _ nonzero, neg_neg, Int.toNat_natCast]

theorem value?_ofNat (small : n ≤ 2 ^ 53) : value? (Float.ofNat n) = some ((n : ℝ) : EReal) := by
  refine (rounds_ofNat n).value?_of_grid (Grid.natCast small) ?_
  rw [Nat.abs_cast]
  exact lt_limit (by exact_mod_cast small)

/-- A difference is exact if the numbers are small or nothing is taken away. -/
theorem toInt?_sub_ofNat (whole : toInt? x = some (n : ℤ)) (less : m ≤ n)
    (small : m = 0 ∨ n ≤ 2 ^ 53) : toInt? (x - Float.ofNat m) = some ((n - m : ℕ) : ℤ) := by
  have value := toInt?_eq_some.1 whole
  obtain ⟨grid, bound⟩ := grid_of_value? value
  have taken : m ≤ 2 ^ 53 := by omega
  have rounds := rounds_sub value (value?_ofNat taken)
  have difference : ((n : ℤ) : ℝ) - m = ((n - m : ℕ) : ℝ) := by
    rw [Nat.cast_sub less, Int.cast_natCast]
  rw [difference] at rounds
  refine toInt?_eq_some.2 (rounds.value?_of_grid ?_ ?_)
  · rcases small with rfl | small
    · exact grid
    · exact Grid.natCast (by omega)
  · refine lt_of_le_of_lt ?_ bound
    rw [Nat.abs_cast, Int.cast_natCast, Nat.abs_cast]
    exact_mod_cast Nat.sub_le n m

/-- A sum is exact within the range in which all integers are doubles. -/
theorem toInt?_add_ofNat (whole : toInt? x = some k) (small : |k| + m ≤ 2 ^ 53) :
    toInt? (x + Float.ofNat m) = some (k + m) := by
  have added : m ≤ 2 ^ 53 := by
    have := abs_nonneg k
    omega
  have bound : |k + m| ≤ 2 ^ 53 := by
    have := abs_add_le k m
    rw [Nat.abs_cast] at this
    exact this.trans small
  have rounds := rounds_add (toInt?_eq_some.1 whole) (value?_ofNat added)
  have sum : (k : ℝ) + m = ((k + m : ℤ) : ℝ) := by push_cast; rfl
  rw [sum] at rounds
  refine toInt?_eq_some.2 (rounds.value?_of_grid (Grid.intCast bound) (lt_limit ?_))
  exact_mod_cast bound

theorem counter_eq (small : m ≤ 2 ^ 53) : counter m = Float.ofNat m :=
  congrArg Float.ofNat (Nat.min_eq_left small)

/-- The grid has no number just below the limit. -/
theorem Grid.le_of_lt_limit {g : ℝ} (hg : Grid g) (less : g < limit) :
    g ≤ limit - 2 ^ (971 : ℤ) := by
  have last : (2 : ℝ) ^ 53 * 2 ^ (971 : ℤ) = limit := by
    rw [← zpow_natCast, ← zpow_add₀ (by norm_num)]
    rfl
  by_contra above
  have beyond := hg.not_between (n := 2 ^ 53 - 1) (e := 971) (.inl (by norm_num))
  generalize (2 : ℝ) ^ (971 : ℤ) = step at *
  norm_num at last beyond
  have := beyond (by linarith)
  linarith

/-- Adding a count to a whole number, however great, gives a whole number. -/
theorem exists_toInt?_add_counter (whole : toInt? x = some k) (m : ℕ) :
    ∃ n, toInt? (x + counter m) = some n := by
  set c := Nat.min m 9007199254740992
  have small : c ≤ 2 ^ 53 := Nat.min_le_right ..
  have value := toInt?_eq_some.1 whole
  obtain ⟨grid, bound⟩ := grid_of_value? value
  obtain ⟨v, faithful, rounded⟩ := rounds_add value (value?_ofNat small)
  have sum : (k : ℝ) + c = ((k + c : ℤ) : ℝ) := by push_cast; rfl
  obtain ⟨n, rfl⟩ := (sum ▸ faithful).exists_int
  refine ⟨n, toInt?_eq_some.2 ?_⟩
  show value? (x + Float.ofNat c) = _
  rw [rounded, clip_coe_of_lt]
  -- The sum is at least as near to its rounding as to the number itself.
  have near := faithful.near k grid
  have added : (c : ℝ) ≤ 2 ^ 53 := by exact_mod_cast small
  have least := grid.neg.le_of_lt_limit ((neg_le_abs _).trans_lt bound)
  have most := grid.le_of_lt_limit ((le_abs_self _).trans_lt bound)
  have gap : (2 : ℝ) * 2 ^ 53 < 2 ^ (971 : ℤ) :=
    lt_of_eq_of_lt (by norm_num) (zpow_lt_zpow_right₀ (m := 54) (by norm_num) (by norm_num))
  generalize (2 : ℝ) ^ (971 : ℤ) = step at *
  rw [add_sub_cancel_left, Nat.abs_cast, abs_le] at near
  rw [abs_lt]
  constructor <;> linarith

end AlphaFoundry.Number
