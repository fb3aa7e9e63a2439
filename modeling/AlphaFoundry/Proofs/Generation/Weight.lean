/-
# AlphaFoundry.Proofs.Generation.Weight -- the weights of a blend are drawn inside their range

Doubles round along the way, but faithfully: no step leaves a bound that is itself a double.  A draw
between two bounds could still leave them, because the width of the range is not a double: it may be
rounded up, and the share of it with it.  But no share is so close to one that this shows, since
there are fewer states than doubles between two powers of two (`Faithful.shrunk`).  So a weight is
between its bounds, and rounding it to decimal places keeps it in the unit interval.
-/
import Mathlib
import AlphaFoundry.Generation.Batch
import AlphaFoundry.Proofs.Number.Count
import AlphaFoundry.Proofs.Rng.Draw

namespace AlphaFoundry

set_option autoImplicit false

namespace Number

open Float.Model.UnpackedFloat (Sign)

variable {g : ℕ} {x : Float}

/-! ## Bounded doubles -/

/-- A finite double of bounded absolute value. -/
def Within (g : ℕ) (x : Float) : Prop :=
  ∃ r : ℝ, value? x = some (r : EReal) ∧ |r| ≤ g

theorem Within.isFinite (within : Within g x) : x.isFinite = true := by
  obtain ⟨r, value, -⟩ := within
  exact isFinite_iff.2 ⟨r, value⟩

theorem Within.neg (within : Within g x) : Within g (-x) := by
  obtain ⟨r, value, bound⟩ := within
  exact ⟨-r, value?_neg value, by rwa [abs_neg]⟩

theorem Rounds.within {z : ℝ} (rounds : Rounds z x) (small : g ≤ 2 ^ 53) (bound : |z| ≤ g) :
    Within g x :=
  rounds.bounded (Grid.natCast small) (lt_limit (by exact_mod_cast small)) bound

/-! ## Doubles between two bounds -/

theorem grid_zero : Grid 0 :=
  ⟨0, 0, by norm_num, by norm_num, by norm_num⟩

theorem grid_one : Grid 1 :=
  ⟨1, 0, by norm_num, by norm_num, by norm_num⟩

/-- A result between two doubles stays between them when it is rounded. -/
theorem Rounds.between {z low high : ℝ} (rounds : Rounds z x) (hlow : Grid low) (hhigh : Grid high)
    (above : low ≤ z) (below : z ≤ high) (small : -limit < low) (large : high < limit) :
    ∃ r : ℝ, value? x = some (r : EReal) ∧ low ≤ r ∧ r ≤ high := by
  obtain ⟨v, faithful, value⟩ := rounds
  have least := faithful.below low hlow above
  have most := faithful.above high hhigh below
  refine ⟨v, ?_, least, most⟩
  rw [value, clip_coe_of_lt (abs_lt.2 ⟨small.trans_le least, most.trans_lt large⟩)]

/-- A result that was not clipped is rounded. -/
theorem Rounds.faithful {z r : ℝ} (rounds : Rounds z x) (value : value? x = some (r : EReal)) :
    Faithful z r := by
  obtain ⟨v, faithful, clipped⟩ := rounds
  have same : clip v = r := Option.some.inj (clipped.symm.trans value)
  by_cases bound : |v| < limit
  · rw [clip_coe_of_lt bound] at same
    exact EReal.coe_injective same ▸ faithful
  · rcases le_abs.1 (not_lt.1 bound) with large | large
    · rw [clip_of_limit_le large] at same
      exact absurd same.symm (EReal.coe_ne_top r)
    · rw [clip_of_le_neg_limit (le_neg.1 large)] at same
      exact absurd same.symm (EReal.coe_ne_bot r)

/-- All numbers of the grid are whole in units of the smallest exponent. -/
theorem Grid.exists_units {g : ℝ} (hg : Grid g) : ∃ n : ℤ, g = n * 2 ^ (-1074 : ℤ) := by
  obtain ⟨m, e, -, least, rfl⟩ := hg
  obtain ⟨k, rfl⟩ := Int.le.dest least
  refine ⟨m * 2 ^ k, ?_⟩
  rw [zpow_add₀ (by norm_num), zpow_natCast]
  push_cast
  ring

/-- A positive double has full precision or the smallest exponent. -/
theorem exists_canonical {r : ℝ} (value : value? x = some (r : EReal)) (pos : 0 < r) :
    ∃ m e, Canonical m e ∧ r = m * 2 ^ e := by
  rcases finite_cases value with ⟨s, -, rfl⟩ | ⟨s, m, e, positive, form, rfl⟩
  · exact absurd pos (lt_irrefl 0)
  · cases s with
    | positive => exact ⟨m, e, (unpack_canonical form).1, by simp [Sign.apply]⟩
    | negative =>
        have size : (0 : ℝ) ≤ m * 2 ^ e := by positivity
        simp only [Sign.apply, Int.cast_neg, Int.cast_natCast, neg_mul] at pos
        linarith

/-- A difference of doubles may be rounded up, but then some double below the difference is at least
any share of what came out that is not too close to all of it. -/
theorem Faithful.shrunk {z d s : ℝ} {y : Float} (faithful : Faithful z d)
    (value : value? y = some (d : EReal)) {n : ℤ} (units : z = n * 2 ^ (-1074 : ℤ))
    (nonneg : 0 ≤ z) (share : s ≤ 1 - 1 / 2 ^ 31) : ∃ g, Grid g ∧ s * d ≤ g ∧ g ≤ z := by
  have dnonneg : 0 ≤ d := faithful.below 0 grid_zero nonneg
  by_cases down : d ≤ z
  · exact ⟨d, faithful.grid, mul_le_of_le_one_left dnonneg (by linarith [share]), down⟩
  have up : z < d := lt_of_not_ge down
  obtain ⟨m, e, canonical, rfl⟩ := exists_canonical value (nonneg.trans_lt up)
  have pos : (0 : ℝ) < 2 ^ e := by positivity
  -- The double before `d` is below the difference, or it would have been the rounding.
  have before : Grid ((m - 1 : ℝ) * 2 ^ e) := by
    have small := canonical.small
    refine ⟨(m : ℤ) - 1, e, ?_, canonical.least, by push_cast; ring⟩
    rw [abs_le]
    omega
  refine ⟨_, before, ?_, ?_⟩
  · have full : (2 : ℝ) ^ 31 ≤ m := by
      rcases canonical.full with full | rfl
      · have full : (2 : ℝ) ^ 52 ≤ m := by exact_mod_cast full
        linarith
      · -- In units of the smallest exponent a difference is exact.
        have less : (n : ℝ) < m := by
          rw [units] at up
          exact lt_of_mul_lt_mul_right up pos.le
        have positive : (0 : ℝ) ≤ n := by
          rw [units] at nonneg
          exact nonneg_of_mul_nonneg_left nonneg pos
        have grid : Grid z := by
          refine ⟨n, -1074, ?_, le_rfl, units⟩
          have small := canonical.small
          have less : n < (m : ℤ) := by exact_mod_cast less
          have positive : 0 ≤ n := by exact_mod_cast positive
          rw [abs_of_nonneg positive]
          omega
        exact absurd (faithful.eq_of_grid grid) up.ne'
    rw [← mul_assoc]
    gcongr
    calc s * m ≤ (1 - 1 / 2 ^ 31) * m := by gcongr
      _ = m - m / 2 ^ 31 := by ring
      _ ≤ m - 1 := by
        gcongr
        rwa [le_div_iff₀ (by norm_num), one_mul]
  · by_contra above
    have := faithful.above _ before (le_of_not_ge above)
    nlinarith

/-! ## Decimal places -/

theorem Binary.abs_value (b : Binary) :
    |b.value| = ((b.mantissa * 2 ^ b.exponent.toNat : ℕ) : ℝ) / b.denominator := by
  have signed : |(b.numerator : ℝ)| = ((b.mantissa * 2 ^ b.exponent.toNat : ℕ) : ℝ) := by
    unfold numerator signed
    rw [Nat.pow_eq]
    split <;> push_cast <;> simp
  rw [value_eq_div, abs_div, signed, Nat.abs_cast]

/-- The number of units is the nearest one, and of two the greater one. -/
theorem Binary.units_eq (b : Binary) (places : ℕ) :
    b.units places = ⌊|b.value| * 10 ^ places + 1 / 2⌋₊ := by
  have pos : (0 : ℝ) < b.denominator := by exact_mod_cast b.denominator_pos
  have quotient : |b.value| * 10 ^ places + 1 / 2
      = ((2 * (b.mantissa * 2 ^ b.exponent.toNat * 10 ^ places) + b.denominator : ℕ) : ℝ)
        / ((2 * b.denominator : ℕ) : ℝ) := by
    rw [abs_value]
    push_cast
    field_simp
  rw [quotient, Nat.floor_div_natCast, Nat.floor_natCast]
  rfl

/-- A number of units as a double. -/
theorem rounds_hundredths (u : ℕ) : Rounds (u / 100) (Float.ofScientific u true 2) := by
  have rounds := rounds_ofScientific u (e := 2) (by norm_num) true
  rwa [if_pos rfl, zpow_neg, zpow_natCast, ← div_eq_mul_inv,
    show (10 : ℝ) ^ 2 = 100 by norm_num] at rounds

theorem Within.roundPlaces (within : Within g x) (small : g ≤ 2 ^ 40) :
    Within g (roundPlaces 2 x) := by
  obtain ⟨r, value, bound⟩ := within
  obtain ⟨b, form, rfl⟩ := exists_ofFloat?_of_value? value
  have units : b.units 2 ≤ g * 100 := by
    rw [b.units_eq, ← Nat.lt_succ_iff, Nat.floor_lt (by positivity)]
    push_cast
    linarith
  have rounded : Within g (Float.ofScientific (b.units 2) true 2) := by
    refine (rounds_hundredths _).within (by omega) ?_
    rw [abs_of_nonneg (by positivity), div_le_iff₀ (by norm_num)]
    exact_mod_cast units
  unfold Number.roundPlaces
  rw [form]
  dsimp only
  split
  · exact ⟨b.value, value, bound⟩
  · split
    · exact rounded.neg
    · exact rounded

end Number

/-! ## Weights -/

open Number

theorem exists_values_of_isValid {range : LiteralRange}
    (valid : Generation.LiteralRange.isValid range = true) :
    ∃ a b : ℝ, value? range.min = some (a : EReal) ∧ value? range.max = some (b : EReal) ∧
      0 < a ∧ a ≤ b ∧ b < 1 := by
  unfold Generation.LiteralRange.isValid at valid
  rw [Bool.and_eq_true, Bool.and_eq_true] at valid
  obtain ⟨⟨positive, ordered⟩, below⟩ := valid
  obtain ⟨z, a, zero, low, positive⟩ := exists_values_of_lt (of_decide_eq_true positive)
  obtain ⟨a', b, low', high, ordered⟩ := exists_values_of_le (of_decide_eq_true ordered)
  obtain ⟨b', o, high', one, below⟩ := exists_values_of_lt (of_decide_eq_true below)
  obtain rfl := Option.some.inj (low.symm.trans low')
  obtain rfl := Option.some.inj (high.symm.trans high')
  obtain rfl := Option.some.inj (value?_zero.symm.trans zero)
  have unit : value? 1 = some (((1 : ℤ) : ℝ) : EReal) := toInt?_eq_some.1 (by decide +kernel)
  obtain rfl := Option.some.inj (unit.symm.trans one)
  lift a to ℝ using ⟨(ordered.trans_lt below).ne_top, positive.ne_bot⟩
  lift b to ℝ using ⟨below.ne_top, (positive.trans_le ordered).ne_bot⟩
  refine ⟨a, b, low, high, ?_, ?_, ?_⟩
  · exact_mod_cast positive
  · exact_mod_cast ordered
  · exact_mod_cast below

/-- A share of the unit interval as a double. -/
theorem share_between {d : ℕ} (less : d < Rng.modulus) :
    ∃ s : ℝ, value? (Scale.share d) = some (s : EReal) ∧ 0 ≤ s ∧ s ≤ 1 - 1 / 2 ^ 31 := by
  have most : d ≤ 2147483647 := Nat.le_of_lt_succ less
  have draw : value? (Float.ofNat d) = some ((d : ℝ) : EReal) := value?_ofNat (by omega)
  have states : value? 2147483648 = some (((2147483648 : ℤ) : ℝ) : EReal) :=
    toInt?_eq_some.1 (by decide +kernel)
  have last : Grid (1 - 1 / 2 ^ 31) := ⟨2147483647, -31, by norm_num, by norm_num, by norm_num⟩
  have := limit_pos
  refine (rounds_div draw states (by norm_num)).between grid_zero last (by positivity) ?_
    (by linarith) (lt_limit (by norm_num))
  have most : (d : ℝ) ≤ 2147483647 := by exact_mod_cast most
  push_cast
  rw [div_le_iff₀ (by norm_num)]
  linarith

/-- What is drawn between two bounds is between them, whatever is rounded on the way. -/
theorem uniform_between {low high : Float} {a b : ℝ} (hlow : value? low = some (a : EReal))
    (hhigh : value? high = some (b : EReal)) (nonneg : 0 ≤ a) (ordered : a ≤ b) (r : Rng) :
    ∃ w : ℝ, value? (r.uniform low high).1 = some (w : EReal) ∧ a ≤ w ∧ w ≤ b := by
  obtain ⟨s, share, snonneg, sle⟩ := share_between r.next_lt
  obtain ⟨agrid, -⟩ := grid_of_value? hlow
  obtain ⟨bgrid, small⟩ := grid_of_value? hhigh
  obtain ⟨-, blimit⟩ := abs_lt.1 small
  have := limit_pos
  obtain ⟨d, width, dnonneg, dle⟩ := (rounds_sub hhigh hlow).between grid_zero bgrid
    (sub_nonneg.2 ordered) (sub_le_self b nonneg) (by linarith) blimit
  have faithful : Faithful (b - a) d := (rounds_sub hhigh hlow).faithful width
  obtain ⟨m, bunits⟩ := bgrid.exists_units
  obtain ⟨n, aunits⟩ := agrid.exists_units
  have units : b - a = ((m - n : ℤ) : ℝ) * 2 ^ (-1074 : ℤ) := by
    rw [aunits, bunits]
    push_cast
    ring
  obtain ⟨g, ggrid, above, below⟩ := faithful.shrunk width units (sub_nonneg.2 ordered) sle
  obtain ⟨p, product, pnonneg, ple⟩ := (rounds_mul share width).between grid_zero ggrid
    (mul_nonneg snonneg dnonneg) above (by linarith) (by linarith)
  exact (rounds_add hlow product).between agrid bgrid (by linarith) (by linarith) (by linarith)
    blimit

theorem within_uniform {range : LiteralRange} (valid : Generation.LiteralRange.isValid range = true)
    (r : Rng) : Within 1 (r.uniform range.min range.max).1 := by
  obtain ⟨a, b, low, high, positive, ordered, below⟩ := exists_values_of_isValid valid
  obtain ⟨w, value, least, most⟩ := uniform_between low high positive.le ordered r
  refine ⟨w, value, ?_⟩
  rw [abs_of_nonneg (positive.le.trans least), Nat.cast_one]
  exact most.trans below.le

theorem Number.Within.complement {x : Float} (within : Within 1 x) : Within 2 (1 - x) := by
  obtain ⟨r, value, bound⟩ := within
  have unit : value? 1 = some (((1 : ℤ) : ℝ) : EReal) := toInt?_eq_some.1 (by decide +kernel)
  refine (rounds_sub unit value).within (by norm_num) ?_
  push_cast at *
  rw [abs_le] at *
  constructor <;> linarith

end AlphaFoundry
