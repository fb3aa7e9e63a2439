/-
# AlphaFoundry.Proofs.Number.Rounding -- what arithmetic on doubles returns

Sums, differences, products and quotients of doubles are the exact results rounded: to a number of
the grid that doubles would form if their exponents had no upper bound, and then clipped at the
limit.  Rounding is described by what callers need of it: no number of the grid lies strictly
between the exact result and the rounded one, none is nearer to the exact result, and of two that
are equally near it is the even one.  So a result on the grid is exact, bounds on the grid are kept,
and whole numbers round to whole numbers.
-/
import Mathlib
import AlphaFoundry.Proofs.Number.Double

namespace AlphaFoundry.Number

set_option autoImplicit false

open Float.Model (UnpackedFloat Format totalExponent)
open Float.Model.UnpackedFloat

/-! ## The grid -/

/-- The numbers of double precision, with no upper bound on the exponent. -/
inductive Grid (g : ℝ) : Prop where
  | intro (m e : ℤ) (small : |m| ≤ 2 ^ 53) (least : -1074 ≤ e) (value : g = m * 2 ^ e)

theorem Grid.neg {g : ℝ} (hg : Grid g) : Grid (-g) := by
  obtain ⟨m, e, small, least, rfl⟩ := hg
  exact ⟨-m, e, by rwa [abs_neg], least, by push_cast; ring⟩

theorem Grid.intCast {n : ℤ} (small : |n| ≤ 2 ^ 53) : Grid n :=
  ⟨n, 0, small, by norm_num, by simp⟩

theorem Grid.natCast {n : ℕ} (small : n ≤ 2 ^ 53) : Grid n := by
  have := Grid.intCast (n := n) (by rw [Nat.abs_cast]; exact_mod_cast small)
  exact_mod_cast this

/-- A number of the grid with a large absolute value is whole. -/
theorem Grid.exists_int {g : ℝ} (hg : Grid g) (large : 2 ^ 53 ≤ |g|) : ∃ n : ℤ, g = n := by
  obtain ⟨m, e, small, -, rfl⟩ := hg
  have pos : (0 : ℝ) < 2 ^ e := by positivity
  have small : |(m : ℝ)| ≤ 2 ^ 53 := by exact_mod_cast small
  rw [abs_mul, abs_of_pos pos] at large
  have unit : (1 : ℝ) ≤ 2 ^ e := by
    by_contra less
    have : |(m : ℝ)| * 2 ^ e < 2 ^ 53 := by nlinarith [abs_nonneg (m : ℝ)]
    linarith
  have nonneg : 0 ≤ e := by
    by_contra negative
    have : (2 : ℝ) ^ e < 2 ^ (0 : ℤ) := zpow_lt_zpow_right₀ (by norm_num) (by omega)
    rw [zpow_zero] at this
    linarith
  obtain ⟨k, rfl⟩ := Int.eq_ofNat_of_zero_le nonneg
  exact ⟨m * 2 ^ k, by push_cast; simp⟩

/-- Between two neighbours of full precision there is nothing of the grid. -/
theorem Grid.not_between {g : ℝ} (hg : Grid g) {n : ℕ} {e : ℤ} (full : 2 ^ 52 ≤ n ∨ e = -1074)
    (above : (n : ℝ) * 2 ^ e < g) : ((n + 1 : ℕ) : ℝ) * 2 ^ e ≤ g := by
  obtain ⟨m, f, small, least, rfl⟩ := hg
  have pos : (0 : ℝ) < 2 ^ e := by positivity
  rcases le_or_gt e f with coarse | fine
  · -- In units of `2 ^ e` both numbers are whole.
    obtain ⟨k, rfl⟩ := Int.le.dest coarse
    have scaled : (m : ℝ) * 2 ^ (e + (k : ℤ)) = ((m * 2 ^ k : ℤ) : ℝ) * 2 ^ e := by
      rw [zpow_add₀ (by norm_num), zpow_natCast]
      push_cast
      ring
    rw [scaled] at above ⊢
    have less : (n : ℤ) < m * 2 ^ k := by exact_mod_cast lt_of_mul_lt_mul_right above pos.le
    have next : ((n + 1 : ℕ) : ℝ) ≤ ((m * 2 ^ k : ℤ) : ℝ) := by exact_mod_cast less
    gcongr
  · -- A finer number has too few digits to be that large.
    exfalso
    have full : 2 ^ 52 ≤ n := full.resolve_right (by omega)
    have full : (2 : ℝ) ^ 52 ≤ n := by exact_mod_cast full
    have small : |(m : ℝ)| ≤ 2 ^ 53 := by exact_mod_cast small
    have step : (2 : ℝ) ^ (f + 1) ≤ 2 ^ e := zpow_le_zpow_right₀ (by norm_num) (by omega)
    have pos : (0 : ℝ) < 2 ^ f := by positivity
    rw [zpow_add_one₀ (by norm_num)] at step
    have : (m : ℝ) * 2 ^ f ≤ n * 2 ^ e :=
      calc (m : ℝ) * 2 ^ f ≤ 2 ^ 53 * 2 ^ f := by gcongr; exact (le_abs_self _).trans small
        _ = 2 ^ 52 * (2 ^ f * 2) := by ring
        _ ≤ n * 2 ^ e := by gcongr
    linarith

/-! ## Faithful rounding -/

/-- A number of the grid, with no other strictly between it and the exact result, and none nearer
to it.  Beside an equally near one it is even in units of the distance between the two. -/
structure Faithful (exact rounded : ℝ) : Prop where
  grid : Grid rounded
  below : ∀ g, Grid g → g ≤ exact → g ≤ rounded
  above : ∀ g, Grid g → exact ≤ g → rounded ≤ g
  near : ∀ g, Grid g → |exact - rounded| ≤ |exact - g|
  even : ∀ g, Grid g → g ≠ rounded → |exact - rounded| = |exact - g| →
    ∃ k : ℤ, rounded = 2 * k * (rounded - g)

namespace Faithful

variable {z v : ℝ}

theorem neg (h : Faithful z v) : Faithful (-z) (-v) where
  grid := h.grid.neg
  below g hg less := le_neg.1 (h.above (-g) hg.neg (le_neg.1 less))
  above g hg less := neg_le.1 (h.below (-g) hg.neg (neg_le.1 less))
  near g hg := by
    have near := h.near (-g) hg.neg
    rwa [← abs_neg, ← abs_neg (z - -g), show -(z - v) = -z - -v by ring,
      show -(z - -g) = -z - g by ring] at near
  even g hg other tie := by
    rw [← abs_neg, ← abs_neg (-z - g), show -(-z - -v) = z - v by ring,
      show -(-z - g) = z - -g by ring] at tie
    obtain ⟨k, even⟩ := h.even (-g) hg.neg (fun same => other (by rw [← same, neg_neg])) tie
    exact ⟨k, by linear_combination -even⟩

theorem of_grid (hz : Grid z) : Faithful z z where
  grid := hz
  below _ _ less := less
  above _ _ less := less
  near g _ := by rw [sub_self, abs_zero]; exact abs_nonneg _
  even g _ other tie := by
    rw [sub_self, abs_zero, eq_comm, abs_eq_zero, sub_eq_zero] at tie
    exact absurd tie.symm other

/-- The lower of two neighbours of the grid, if it is not farther than the upper one, and even if it
is as far. -/
theorem of_lower {low high : ℝ} (grid : Grid low) (apart : ∀ g, Grid g → g ≤ low ∨ high ≤ g)
    (above : low ≤ z) (below : z < high) (half : z - low ≤ high - z)
    (even : z - low = high - z → ∃ k : ℤ, low = 2 * k * (high - low)) : Faithful z low where
  grid := grid
  below g hg bound := (apart g hg).resolve_right (bound.trans_lt below).not_ge
  above g _ bound := above.trans bound
  near g hg := by
    rw [abs_of_nonneg (sub_nonneg.2 above)]
    rcases apart g hg with less | more
    · exact (sub_le_sub_left less z).trans (le_abs_self _)
    · rw [abs_sub_comm]
      exact half.trans ((sub_le_sub_right more z).trans (le_abs_self _))
  even g hg other tie := by
    rw [abs_of_nonneg (sub_nonneg.2 above)] at tie
    rcases apart g hg with less | more
    · have less : g < low := lt_of_le_of_ne less other
      have := le_abs_self (z - g)
      linarith
    · rw [abs_of_nonpos (by linarith)] at tie
      obtain rfl : g = high := by linarith
      obtain ⟨k, even⟩ := even (by linarith)
      exact ⟨-k, by push_cast; linear_combination even⟩

theorem of_upper {low high : ℝ} (grid : Grid high) (apart : ∀ g, Grid g → g ≤ low ∨ high ≤ g)
    (above : low < z) (below : z ≤ high) (half : high - z ≤ z - low)
    (even : high - z = z - low → ∃ k : ℤ, high = 2 * k * (high - low)) : Faithful z high := by
  have mirrored : Faithful (-z) (-high) := by
    have apart (g : ℝ) (hg : Grid g) : g ≤ -high ∨ -low ≤ g :=
      (apart (-g) hg.neg).symm.imp (fun more => le_neg.1 more) fun less => neg_le.1 less
    refine of_lower grid.neg apart (neg_le_neg below) (neg_lt_neg above) (by linarith) fun tie => ?_
    obtain ⟨k, even⟩ := even (by linarith)
    exact ⟨-k, by push_cast; linear_combination -even⟩
  simpa using mirrored.neg

theorem eq_of_grid (h : Faithful z v) (hz : Grid z) : v = z :=
  le_antisymm (h.above z hz le_rfl) (h.below z hz le_rfl)

theorem bounded (h : Faithful z v) {g : ℝ} (hg : Grid g) (bound : |z| ≤ g) : |v| ≤ g := by
  obtain ⟨low, high⟩ := abs_le.1 bound
  exact abs_le.2 ⟨h.below (-g) hg.neg low, h.above g hg high⟩

/-- Whole numbers round to whole numbers. -/
theorem exists_int {n : ℤ} (h : Faithful n v) : ∃ m : ℤ, v = m := by
  have grid : Grid (2 ^ 53 : ℝ) := ⟨1, 53, by norm_num, by norm_num, by norm_num⟩
  rcases le_total |n| (2 ^ 53) with small | large
  · exact ⟨n, h.eq_of_grid (Grid.intCast small)⟩
  · apply h.grid.exists_int
    rcases le_abs.1 large with positive | negative
    · have : (2 ^ 53 : ℝ) ≤ n := by exact_mod_cast positive
      exact le_abs.2 (.inl (h.below _ grid this))
    · have : (2 ^ 53 : ℝ) ≤ -n := by exact_mod_cast negative
      have := h.above _ grid.neg (le_neg.1 this)
      exact le_abs.2 (.inr (le_neg.1 this))

end Faithful

/-! ## Mantissas with residual bits -/

/-- The number of units of the mantissa that its bits stand for: the round bit is half a unit, and
the sticky bit says that there is a rest below it. -/
inductive Represents (em : ExtendedMantissa) (t : ℝ) : Prop where
  | intro (rest : ℝ) (nonneg : 0 ≤ rest) (less : rest < 1)
      (sticky : em.stickyBit = true ↔ rest ≠ 0)
      (value : 2 * t = 2 * em.mantissa + em.roundBit.toNat + rest)

namespace Represents

variable {em : ExtendedMantissa} {t : ℝ}

theorem shiftRightOne (h : Represents em t) : Represents em.shiftRightOne (t / 2) := by
  obtain ⟨rest, nonneg, less, sticky, value⟩ := h
  obtain ⟨m, bit, stickyBit⟩ := em
  have digits : (m : ℝ) = 2 * (m / 2 : ℕ) + (m % 2 : ℕ) := by
    exact_mod_cast (Nat.div_add_mod m 2).symm
  have last : ((m % 2 != 0).toNat : ℝ) = (m % 2 : ℕ) := by
    rcases Nat.mod_two_eq_zero_or_one m with even | odd
    · simp [even]
    · simp [odd]
  simp only at value sticky
  refine ⟨(bit.toNat + rest) / 2, ?_, ?_, ?_, ?_⟩
  · positivity
  · cases bit <;> simp <;> linarith
  · cases bit
    · simp [ExtendedMantissa.shiftRightOne, sticky]
    · simp only [ExtendedMantissa.shiftRightOne, Bool.true_or, true_iff, Bool.toNat_true]
      have : (0 : ℝ) < ((1 : ℕ) + rest) / 2 := by push_cast; linarith
      exact this.ne'
  · simp only [ExtendedMantissa.shiftRightOne, last]
    linarith

theorem shiftRight (h : Represents em t) (k : ℕ) : Represents (em >>> k) (t / 2 ^ k) := by
  change Represents (k.repeat ExtendedMantissa.shiftRightOne em) _
  induction k with
  | zero => simpa [Nat.repeat] using h
  | succ k ih =>
      rw [Nat.repeat, pow_succ, ← div_div]
      exact ih.shiftRightOne

theorem mantissa_le (h : Represents em t) : (em.mantissa : ℝ) ≤ t := by
  obtain ⟨rest, nonneg, -, -, value⟩ := h
  have : (0 : ℝ) ≤ em.roundBit.toNat := by positivity
  linarith

theorem lt_mantissa_add_one (h : Represents em t) : t < (em.mantissa + 1 : ℕ) := by
  obtain ⟨rest, -, less, -, value⟩ := h
  have : (em.roundBit.toNat : ℝ) ≤ 1 := by exact_mod_cast Bool.toNat_le _
  push_cast
  linarith

/-- Without residual bits nothing is rounded. -/
theorem rounded_of_eq (h : Represents em t) (exact : t = em.mantissa) :
    em.roundedMantissa = em.mantissa := by
  obtain ⟨rest, nonneg, less, sticky, value⟩ := h
  obtain ⟨m, bit, stickyBit⟩ := em
  simp only at exact value sticky
  cases bit with
  | true => simp only [Bool.toNat_true] at value; push_cast at value; linarith
  | false =>
      have none : rest = 0 := by simp only [Bool.toNat_false] at value; push_cast at value; linarith
      have : stickyBit = false := by simpa [none] using sticky
      rw [this]
      rfl

theorem rounded_eq_or (em : ExtendedMantissa) :
    em.roundedMantissa = em.mantissa ∨ em.roundedMantissa = em.mantissa + 1 := by
  obtain ⟨m, bit, stickyBit⟩ := em
  have parity := Nat.mod_two_eq_zero_or_one m
  cases bit <;> cases stickyBit <;>
    simp [ExtendedMantissa.roundedMantissa, ExtendedMantissa.accuracy,
      Accuracy.roundToNearestEven, parity]

/-- It is rounded down from the lower half of a unit and up from the upper half. -/
theorem rounded_half (h : Represents em t) :
    (em.roundedMantissa = em.mantissa → 2 * t ≤ 2 * em.mantissa + 1) ∧
      (em.roundedMantissa = em.mantissa + 1 → 2 * em.mantissa + 1 ≤ 2 * t) := by
  obtain ⟨rest, nonneg, less, sticky, value⟩ := h
  obtain ⟨m, bit, stickyBit⟩ := em
  simp only at value sticky ⊢
  cases bit with
  | false =>
      simp only [Bool.toNat_false, Nat.cast_zero, add_zero] at value
      refine ⟨fun _ => by linarith, fun up => ?_⟩
      cases stickyBit <;>
        simp [ExtendedMantissa.roundedMantissa, ExtendedMantissa.accuracy,
          Accuracy.roundToNearestEven] at up
  | true =>
      simp only [Bool.toNat_true, Nat.cast_one] at value
      refine ⟨fun down => ?_, fun _ => by linarith⟩
      have even : stickyBit = false := by
        cases stickyBit
        · rfl
        · simp [ExtendedMantissa.roundedMantissa, ExtendedMantissa.accuracy,
            Accuracy.roundToNearestEven] at down
      have none : rest = 0 := by simpa [even] using sticky
      linarith

/-- From halfway it is rounded to the even neighbour. -/
theorem two_dvd_rounded (h : Represents em t) (tie : 2 * t = 2 * em.mantissa + 1) :
    2 ∣ em.roundedMantissa := by
  obtain ⟨rest, nonneg, less, sticky, value⟩ := h
  obtain ⟨m, bit, stickyBit⟩ := em
  simp only at value sticky tie
  cases bit with
  | false =>
      simp only [Bool.toNat_false, Nat.cast_zero, add_zero] at value
      linarith
  | true =>
      simp only [Bool.toNat_true, Nat.cast_one] at value
      have none : rest = 0 := by linarith
      have stickyBit : stickyBit = false := by simpa [none] using sticky
      subst stickyBit
      show 2 ∣ m + m % 2
      omega

/-- A mantissa of full precision rounds to one of the two neighbours of what it represents. -/
theorem faithful (h : Represents em t) {f : ℤ} (least : -1074 ≤ f) (small : em.mantissa < 2 ^ 53)
    (full : 2 ^ 52 ≤ em.mantissa ∨ f = -1074) :
    Faithful (t * 2 ^ f) (em.roundedMantissa * 2 ^ f) := by
  have pos : (0 : ℝ) < 2 ^ f := by positivity
  have grid {n : ℕ} (bound : n ≤ 2 ^ 53) : Grid ((n : ℝ) * 2 ^ f) :=
    ⟨n, f, by rw [Nat.abs_cast]; exact_mod_cast bound, least, by push_cast; ring⟩
  rcases eq_or_lt_of_le h.mantissa_le with exact | less
  · rw [h.rounded_of_eq exact.symm, exact]
    exact exact ▸ Faithful.of_grid (grid small.le)
  · have low : (em.mantissa : ℝ) * 2 ^ f < t * 2 ^ f := by gcongr
    have high : t * 2 ^ f < ((em.mantissa + 1 : ℕ) : ℝ) * 2 ^ f := by
      have := h.lt_mantissa_add_one
      gcongr
    have apart (g : ℝ) (hg : Grid g) :
        g ≤ (em.mantissa : ℝ) * 2 ^ f ∨ ((em.mantissa + 1 : ℕ) : ℝ) * 2 ^ f ≤ g :=
      (le_or_gt g _).imp_right (hg.not_between full)
    obtain ⟨lower, upper⟩ := h.rounded_half
    have step : ((em.mantissa + 1 : ℕ) : ℝ) * 2 ^ f - (em.mantissa : ℝ) * 2 ^ f = 2 ^ f := by
      push_cast
      ring
    have even (tie : t * 2 ^ f - em.mantissa * 2 ^ f = 2 ^ f - (t * 2 ^ f - em.mantissa * 2 ^ f)) :
        ∃ k : ℤ, (em.roundedMantissa : ℝ) * 2 ^ f = 2 * k * 2 ^ f := by
      have half : 2 * t = 2 * em.mantissa + 1 :=
        mul_right_cancel₀ pos.ne' (by linear_combination tie)
      obtain ⟨k, even⟩ := h.two_dvd_rounded half
      exact ⟨k, by rw [even]; push_cast; ring⟩
    rcases rounded_eq_or em with down | up
    · rw [down] at even ⊢
      refine .of_lower (grid small.le) apart low.le high ?_ fun tie => ?_
      · have := lower down
        push_cast
        nlinarith
      · rw [step]
        exact even (by linarith)
    · rw [up] at even ⊢
      refine .of_upper (grid small) apart low high.le ?_ fun tie => ?_
      · have := upper up
        push_cast
        nlinarith
      · rw [step]
        exact even (by linarith)

end Represents

/-! ## Rounding a mantissa -/

theorem targetExponent_eq (m : ℕ) (e : ℤ) :
    Format.binary64.targetExponent (totalExponent m e) = max (m.log2 + e - 52) (-1074) := by
  have least : Format.binary64.minExponent = -1074 := rfl
  have bits : (Format.binary64.mantissaBits : ℤ) = 53 := rfl
  unfold Format.targetExponent totalExponent
  rw [least, bits]
  congr 1
  ring

theorem mantissa_shiftRight (em : ExtendedMantissa) (k : ℕ) :
    (em >>> k).mantissa = em.mantissa / 2 ^ k := by
  change (k.repeat ExtendedMantissa.shiftRightOne em).mantissa = _
  induction k with
  | zero => simp [Nat.repeat]
  | succ k ih =>
      rw [Nat.repeat, pow_succ, ← Nat.div_div_eq_div_mul, ← ih]
      rfl

theorem mantissa_ofMantissaAndAccuracy (m : ℕ) (acc : Accuracy) :
    (ExtendedMantissa.ofMantissaAndAccuracy m acc).mantissa = m := by
  rcases acc with _ | (_ | _ | _) <;> rfl

/-- The first shift leaves a mantissa of full precision. -/
theorem shifted_precision {m : ℕ} {e : ℤ} (room : e ≤ -1074 ∨ 2 ^ 52 ≤ m) {k : ℕ}
    (shift : e + k = max (m.log2 + e - 52) (-1074)) :
    m / 2 ^ k < 2 ^ 53 ∧ (2 ^ 52 ≤ m / 2 ^ k ∨ e + k = -1074) := by
  have under : m < 2 ^ (m.log2 + 1) := Nat.lt_log2_self
  constructor
  · rw [Nat.div_lt_iff_lt_mul (by positivity), ← pow_add]
    exact under.trans_le (Nat.pow_le_pow_right (by norm_num) (by omega))
  · rcases le_or_gt ((m.log2 : ℤ) + e - 52) (-1074) with subnormal | normal
    · right; omega
    · left
      have digits : m.log2 = 52 + k := by omega
      have nonzero : m ≠ 0 := by rintro rfl; rw [Nat.log2_zero] at digits; omega
      rw [Nat.le_div_iff_mul_le (by positivity), ← pow_add, ← digits]
      exact Nat.log2_self_le nonzero

/-- The second shift makes the rounded mantissa canonical, and keeps what it stands for. -/
theorem settle {r : ℕ} {f : ℤ} (bound : r ≤ 2 ^ 53) (least : -1074 ≤ f)
    (full : 2 ^ 52 ≤ r ∨ f = -1074) :
    let settled := shiftToTargetExponent Format.binary64 r f .exact
    Canonical settled.1.mantissa settled.2 ∧
      (settled.1.mantissa : ℝ) * 2 ^ settled.2 = r * 2 ^ f := by
  simp only [shiftToTargetExponent, shiftToExponent, targetExponent_eq, mantissa_shiftRight,
    mantissa_ofMantissaAndAccuracy]
  rcases eq_or_lt_of_le bound with rfl | small
  · have log : (2 ^ 53 : ℕ).log2 = 53 := Nat.log2_two_pow
    have one : (max (((2 ^ 53 : ℕ).log2 : ℤ) + f - 52) (-1074) - f).toNat = 1 := by
      rw [log]; omega
    rw [one]
    refine ⟨⟨by norm_num, by push_cast; omega, .inl (by norm_num)⟩, ?_⟩
    rw [Nat.cast_one, zpow_add_one₀ (by norm_num)]
    norm_num
    ring
  · have log : r.log2 ≤ 52 := by
      rcases Nat.eq_zero_or_pos r with rfl | pos
      · simp
      · have := (Nat.log2_lt pos.ne').2 small
        omega
    have none : (max ((r.log2 : ℤ) + f - 52) (-1074) - f).toNat = 0 := by omega
    rw [none]
    simp only [pow_zero, Nat.div_one, Nat.cast_zero, add_zero, and_true]
    exact ⟨small, least, full⟩

/-- Rounding with a sign: the result is canonical and faithful. -/
theorem roundWithAccuracy_spec (s : Sign) {m : ℕ} {e : ℤ} {acc : Accuracy} {t : ℝ}
    (represents : Represents (.ofMantissaAndAccuracy m acc) t) (room : e ≤ -1074 ∨ 2 ^ 52 ≤ m) :
    let rounded := roundWithAccuracy Format.binary64 s m e acc
    Proper rounded ∧ ∃ v : ℝ, Faithful (((s.apply 1 : ℤ) : ℝ) * (t * 2 ^ e)) v ∧
      valueOf rounded = some (v : EReal) := by
  set k : ℕ := (max ((m.log2 : ℤ) + e - 52) (-1074) - e).toNat with hk
  have shift : e + k = max ((m.log2 : ℤ) + e - 52) (-1074) := by
    have log : 2 ^ 52 ≤ m → 52 ≤ m.log2 := fun full => (Nat.le_log2 (by omega)).2 full
    omega
  obtain ⟨small, full⟩ := shifted_precision room shift
  set em := ExtendedMantissa.ofMantissaAndAccuracy m acc >>> k with hem
  have mantissa : em.mantissa = m / 2 ^ k := by
    rw [hem, mantissa_shiftRight, mantissa_ofMantissaAndAccuracy]
  have shifted : Represents em (t / 2 ^ k) := represents.shiftRight k
  have least : -1074 ≤ e + k := by omega
  have faithful := shifted.faithful least (by rwa [mantissa]) (by rwa [mantissa])
  have units : t / 2 ^ k * 2 ^ (e + (k : ℤ)) = t * 2 ^ e := by
    rw [zpow_add₀ (by norm_num), zpow_natCast]
    field_simp
  rw [units] at faithful
  have near := Represents.rounded_eq_or em
  obtain ⟨canonical, kept⟩ := settle (r := em.roundedMantissa) (f := e + k) (by omega) least
    (by omega)
  have first : shiftToTargetExponent Format.binary64 m e acc = (em, e + k) := by
    rw [shiftToTargetExponent, shiftToExponent, targetExponent_eq]
  simp only [roundWithAccuracy, first]
  set settled := shiftToTargetExponent Format.binary64 em.roundedMantissa (e + k) .exact
  have signed : Faithful (((s.apply 1 : ℤ) : ℝ) * (t * 2 ^ e))
      (((s.apply settled.1.mantissa : ℤ) : ℝ) * 2 ^ settled.2) := by
    rw [← kept] at faithful
    cases s with
    | positive => simpa [Sign.apply] using faithful
    | negative => simpa [Sign.apply] using faithful.neg
  refine ⟨?_, _, signed, ?_⟩
  · split
    · trivial
    · exact canonical
  · split
    · rename_i zero
      rw [zero]
      cases s <;> simp [valueOf, Sign.apply]
    · rfl

end AlphaFoundry.Number
