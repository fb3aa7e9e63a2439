/-
# AlphaFoundry.Proofs.Number.Arithmetic -- sums, differences, products and quotients

Each operation on finite doubles returns its exact result, rounded and clipped, and a decimal is
read as its value, rounded and clipped.  What follows of whole numbers: `Float.ofInt` is exact
wherever a double holds the number, and a sum of whole doubles is whole or infinite.
-/
import Mathlib
import AlphaFoundry.Proofs.Number.Rounding

namespace AlphaFoundry.Number

set_option autoImplicit false

open Float.Model (UnpackedFloat Format)
open Float.Model.UnpackedFloat (Sign Accuracy ExtendedMantissa decreaseExponent roundWithAccuracy
  divCore accuracyOfFraction)

/-- A double that is an exact result, rounded and clipped. -/
def Rounds (exact : ℝ) (x : Float) : Prop :=
  ∃ v : ℝ, Faithful exact v ∧ value? x = some (clip (v : EReal))

/-- The same before packing. -/
def RoundsOff (exact : ℝ) (u : UnpackedFloat) : Prop :=
  Proper u ∧ ∃ v : ℝ, Faithful exact v ∧ valueOf u = some (v : EReal)

theorem RoundsOff.packed {z : ℝ} {u : UnpackedFloat} (h : RoundsOff z u) {x : Float}
    (unpacked : x.toModel.unpack
      = UnpackedFloat.unpack Format.binary64 (UnpackedFloat.pack Format.binary64 u)) :
    Rounds z x := by
  obtain ⟨proper, v, faithful, value⟩ := h
  refine ⟨v, faithful, ?_⟩
  rw [value?, unpacked, valueOf_unpack_pack proper, value, Option.map_some]

/-! ## What rounding keeps -/

theorem Canonical.grid {m : ℕ} {e : ℤ} (canonical : Canonical m e) (s : Sign) :
    Grid (((s.apply m : ℤ) : ℝ) * 2 ^ e) := by
  refine ⟨s.apply m, e, ?_, canonical.least, rfl⟩
  have := canonical.small
  cases s <;> simp only [Sign.apply, abs_neg, Nat.abs_cast] <;> exact_mod_cast this.le

/-- The values of finite doubles are on the grid and below the limit. -/
theorem grid_of_value? {x : Float} {r : ℝ} (hx : value? x = some (r : EReal)) :
    Grid r ∧ |r| < limit := by
  unfold value? at hx
  cases form : x.toModel.unpack with
  | notANumber => rw [form] at hx; cases hx
  | infinity s => rw [form] at hx; cases s <;> simp [valueOf] at hx
  | zero s =>
      rw [form] at hx
      have zero : (0 : ℝ) = r := EReal.coe_injective (Option.some.inj hx)
      rw [← zero, abs_zero]
      exact ⟨by simpa using Grid.natCast (n := 0) (by norm_num), limit_pos⟩
  | finite s m e pos =>
      rw [form] at hx
      obtain ⟨canonical, bound⟩ := unpack_canonical form
      have equal : ((s.apply m : ℤ) : ℝ) * 2 ^ e = r := EReal.coe_injective (Option.some.inj hx)
      have sign : |(((s.apply m : ℤ) : ℝ))| = m := by cases s <;> simp [Sign.apply]
      rw [← equal]
      refine ⟨canonical.grid s, ?_⟩
      rw [abs_mul, sign, abs_of_pos (by positivity)]
      exact canonical.scaled_lt_limit bound

namespace Rounds

variable {z : ℝ} {x : Float}

theorem value?_of_grid (h : Rounds z x) (hz : Grid z) (bound : |z| < limit) :
    value? x = some (z : EReal) := by
  obtain ⟨v, faithful, value⟩ := h
  rw [value, faithful.eq_of_grid hz, clip_coe_of_lt bound]

theorem bounded (h : Rounds z x) {g : ℝ} (hg : Grid g) (small : g < limit) (bound : |z| ≤ g) :
    ∃ r : ℝ, value? x = some (r : EReal) ∧ |r| ≤ g := by
  obtain ⟨v, faithful, value⟩ := h
  have less := faithful.bounded hg bound
  exact ⟨v, by rw [value, clip_coe_of_lt (less.trans_lt small)], less⟩

end Rounds

/-- A whole number or an infinity. -/
def Whole (x : Float) : Prop :=
  ∃ a : EReal, value? x = some a ∧ (a = ⊤ ∨ a = ⊥ ∨ ∃ n : ℤ, a = ((n : ℝ) : EReal))

theorem Rounds.whole {n : ℤ} {x : Float} (h : Rounds n x) : Whole x := by
  obtain ⟨v, faithful, value⟩ := h
  obtain ⟨m, rfl⟩ := faithful.exists_int
  refine ⟨_, value, ?_⟩
  unfold clip
  split
  · exact .inl rfl
  · split
    · exact .inr (.inl rfl)
    · exact .inr (.inr ⟨m, rfl⟩)

/-! ## Rounding of scaled whole numbers -/

theorem represents_exact (m : ℕ) :
    Represents (.ofMantissaAndAccuracy m .exact) m :=
  ⟨0, le_rfl, by norm_num, by simp [ExtendedMantissa.ofMantissaAndAccuracy],
    by simp [ExtendedMantissa.ofMantissaAndAccuracy]⟩

theorem roundsOff_exact (s : Sign) {m : ℕ} {e : ℤ} (room : e ≤ -1074 ∨ 2 ^ 52 ≤ m) :
    RoundsOff (((s.apply m : ℤ) : ℝ) * 2 ^ e)
      (roundWithAccuracy Format.binary64 s m e .exact) := by
  obtain ⟨proper, v, faithful, value⟩ := roundWithAccuracy_spec s (represents_exact m) room
  refine ⟨proper, v, ?_, value⟩
  cases s <;> simpa [Sign.apply] using faithful

theorem decreaseExponent_scaled (m : ℕ) (e f : ℤ) :
    ((decreaseExponent m e f).1 : ℝ) * 2 ^ (decreaseExponent m e f).2 = m * 2 ^ e := by
  simp only [decreaseExponent, Nat.shiftLeft_eq]
  rw [zpow_sub₀ (by norm_num), zpow_natCast]
  push_cast
  field_simp

theorem roundsOff_round (s : Sign) {m : ℕ} (e : ℤ) (pos : 0 < m) :
    RoundsOff (((s.apply m : ℤ) : ℝ) * 2 ^ e) (UnpackedFloat.round Format.binary64 s m e) := by
  simp only [UnpackedFloat.round, targetExponent_eq]
  have scaled := decreaseExponent_scaled m e (max ((m.log2 : ℤ) + e - 52) (-1074))
  have room : (decreaseExponent m e (max ((m.log2 : ℤ) + e - 52) (-1074))).2 ≤ -1074 ∨
      2 ^ 52 ≤ (decreaseExponent m e (max ((m.log2 : ℤ) + e - 52) (-1074))).1 := by
    have digits := Nat.log2_self_le pos.ne'
    simp only [decreaseExponent, Nat.shiftLeft_eq]
    rcases le_or_gt ((m.log2 : ℤ) + e - 52) (-1074) with subnormal | normal
    · left; omega
    · right
      calc 2 ^ 52 ≤ 2 ^ (m.log2 + (e - max ((m.log2 : ℤ) + e - 52) (-1074)).toNat) :=
            Nat.pow_le_pow_right (by norm_num) (by omega)
        _ = 2 ^ m.log2 * 2 ^ (e - max ((m.log2 : ℤ) + e - 52) (-1074)).toNat := pow_add ..
        _ ≤ _ := Nat.mul_le_mul_right _ digits
  have rounds := roundsOff_exact s room
  cases s with
  | positive =>
      simp only [Sign.apply, Int.cast_natCast] at rounds ⊢
      rwa [← scaled]
  | negative =>
      simp only [Sign.apply, Int.cast_natCast, Int.cast_neg, neg_mul] at rounds ⊢
      rwa [← scaled]

theorem roundsOff_normalize (n : ℤ) (e : ℤ) (s : Sign) :
    RoundsOff ((n : ℝ) * 2 ^ e) (UnpackedFloat.normalize Format.binary64 n e s) := by
  unfold UnpackedFloat.normalize
  rcases lt_trichotomy n 0 with negative | rfl | positive
  · rw [compare_lt_iff_lt.2 negative]
    have := roundsOff_round .negative e (m := (-n).toNat) (by omega)
    simpa only [Sign.apply, Int.toNat_of_nonneg (by omega : 0 ≤ -n), neg_neg] using this
  · rw [compare_eq_iff_eq.2 rfl]
    have zero : Grid 0 := by simpa using Grid.natCast (n := 0) (by norm_num)
    exact ⟨trivial, 0, by simpa using Faithful.of_grid zero, rfl⟩
  · rw [compare_gt_iff_gt.2 positive]
    have := roundsOff_round .positive e (m := n.toNat) (by omega)
    simpa only [Sign.apply, Int.toNat_of_nonneg positive.le] using this

/-! ## Finite values before packing -/

/-- The finite values: of a zero, or of a mantissa above zero. -/
theorem finite_cases {u : UnpackedFloat} {r : ℝ} (value : valueOf u = some (r : EReal)) :
    (∃ s, u = .zero s ∧ r = 0) ∨
      ∃ s m e, ∃ pos : 0 < m, u = .finite s m e pos ∧ r = ((s.apply m : ℤ) : ℝ) * 2 ^ e := by
  cases u with
  | notANumber => cases value
  | infinity s => cases s <;> simp [valueOf] at value
  | zero s => exact .inl ⟨s, rfl, EReal.coe_injective (Option.some.inj value).symm⟩
  | finite s m e pos =>
      exact .inr ⟨s, m, e, pos, rfl, EReal.coe_injective (Option.some.inj value).symm⟩

theorem roundsOff_self {u : UnpackedFloat} {r : ℝ} (proper : Proper u)
    (value : valueOf u = some (r : EReal)) : RoundsOff r u := by
  refine ⟨proper, r, Faithful.of_grid ?_, value⟩
  rcases finite_cases value with ⟨s, rfl, rfl⟩ | ⟨s, m, e, pos, rfl, rfl⟩
  · simpa using Grid.natCast (n := 0) (by norm_num)
  · exact Canonical.grid proper s

theorem decreaseExponent_signed (s : Sign) (m : ℕ) {e f : ℤ} (finer : f ≤ e) :
    ((s.apply (decreaseExponent m e f).1 : ℤ) : ℝ) * 2 ^ f = ((s.apply m : ℤ) : ℝ) * 2 ^ e := by
  have scaled := decreaseExponent_scaled m e f
  have exponent : (decreaseExponent m e f).2 = f := by
    simp only [decreaseExponent]
    omega
  rw [exponent] at scaled
  cases s with
  | positive => simpa only [Sign.apply, Int.cast_natCast] using scaled
  | negative => simp only [Sign.apply, Int.cast_neg, Int.cast_natCast, neg_mul, scaled]

theorem apply_mul (s t : Sign) (m n : ℤ) : (s * t).apply (m * n) = s.apply m * t.apply n := by
  cases s <;> cases t
  · exact (neg_mul_neg m n).symm
  · exact (neg_mul m n).symm
  · exact (mul_neg m n).symm
  · rfl

theorem apply_div (s t : Sign) (x y : ℝ) :
    (((s / t).apply 1 : ℤ) : ℝ) * (x / y) = (s.apply 1 : ℤ) * x / ((t.apply 1 : ℤ) * y) := by
  have same : Sign.negative / Sign.negative = .positive := rfl
  have left : Sign.negative / Sign.positive = .negative := rfl
  have right : Sign.positive / Sign.negative = .negative := rfl
  have none : Sign.positive / Sign.positive = .positive := rfl
  cases s <;> cases t <;> simp [same, left, right, none, Sign.apply, neg_div, div_neg]

theorem apply_natCast (s : Sign) (m : ℕ) :
    ((s.apply m : ℤ) : ℝ) = ((s.apply 1 : ℤ) : ℝ) * m := by
  cases s <;> simp [Sign.apply]

/-! ## Operations before packing -/

section Operations

variable {u v : UnpackedFloat} {a b : ℝ} (hu : Proper u) (hv : Proper v)
  (ha : valueOf u = some (a : EReal)) (hb : valueOf v = some (b : EReal))

include hu hv ha hb

theorem roundsOff_add : RoundsOff (a + b) (UnpackedFloat.add Format.binary64 u v) := by
  rcases finite_cases ha with ⟨s, rfl, rfl⟩ | ⟨s, m, e, mpos, rfl, rfl⟩ <;>
    rcases finite_cases hb with ⟨t, rfl, rfl⟩ | ⟨t, n, f, npos, rfl, rfl⟩
  · rw [add_zero]
    simp only [UnpackedFloat.add]
    split
    · exact roundsOff_self trivial ha
    · exact roundsOff_self trivial rfl
  · rw [zero_add]
    exact roundsOff_self hv hb
  · rw [add_zero]
    exact roundsOff_self hu ha
  · have left := decreaseExponent_signed s m (min_le_left e f)
    have right := decreaseExponent_signed t n (min_le_right e f)
    rw [← left, ← right, ← add_mul, ← Int.cast_add]
    exact roundsOff_normalize _ _ _

theorem roundsOff_mul : RoundsOff (a * b) (UnpackedFloat.mul Format.binary64 u v) := by
  rcases finite_cases ha with ⟨s, rfl, rfl⟩ | ⟨s, m, e, mpos, rfl, rfl⟩ <;>
    rcases finite_cases hb with ⟨t, rfl, rfl⟩ | ⟨t, n, f, npos, rfl, rfl⟩
  · rw [mul_zero]
    exact roundsOff_self trivial rfl
  · rw [zero_mul]
    exact roundsOff_self trivial rfl
  · rw [mul_zero]
    exact roundsOff_self trivial rfl
  · have left : Canonical m e := hu
    have right : Canonical n f := hv
    have room : e + f ≤ -1074 ∨ 2 ^ 52 ≤ m * n := by
      rcases left.full with full | subnormal
      · exact .inr (full.trans (Nat.le_mul_of_pos_right m npos))
      · rcases right.full with full | subnormal
        · exact .inr (full.trans (Nat.le_mul_of_pos_left n mpos))
        · omega
    have rounds := roundsOff_exact (s * t) room
    have product : ((((s * t).apply (m * n : ℕ) : ℤ)) : ℝ) * 2 ^ (e + f)
        = ((s.apply m : ℤ) : ℝ) * 2 ^ e * (((t.apply n : ℤ) : ℝ) * 2 ^ f) := by
      rw [zpow_add₀ (by norm_num), Nat.cast_mul, apply_mul]
      push_cast
      ring
    rwa [product] at rounds

end Operations

/-- A difference is a sum with the negation. -/
theorem unpacked_sub (u v : UnpackedFloat) :
    UnpackedFloat.sub Format.binary64 u v
      = UnpackedFloat.add Format.binary64 u (UnpackedFloat.neg v) := by
  rcases u with s | _ | s | ⟨s, m, e, mpos⟩ <;> rcases v with t | _ | t | ⟨t, n, f, npos⟩ <;>
    try rfl
  simp only [UnpackedFloat.sub, UnpackedFloat.add, UnpackedFloat.neg]
  cases t with
  | positive => rw [Int.sub_eq_add_neg]; rfl
  | negative =>
      congr 1
      exact sub_neg_eq_add _ _

/-- The fraction behind the quotient, as residual bits. -/
theorem represents_fraction (q : ℕ) {n d : ℕ} (less : n < d) :
    Represents (.ofMantissaAndAccuracy q (accuracyOfFraction n d)) (q + n / d) := by
  have pos : (0 : ℝ) < d := by exact_mod_cast Nat.zero_lt_of_lt less
  unfold accuracyOfFraction
  by_cases none : n = 0
  · rw [if_pos none, none]
    simpa using represents_exact q
  · have some : (0 : ℝ) < n := by exact_mod_cast Nat.pos_of_ne_zero none
    have below : (n : ℝ) < d := by exact_mod_cast less
    rw [if_neg none]
    rcases lt_trichotomy (2 * n) d with low | half | high
    · have low : (2 * n : ℝ) < d := by exact_mod_cast low
      rw [compare_lt_iff_lt.2 (by assumption_mod_cast)]
      refine ⟨2 * n / d, by positivity, (div_lt_one pos).2 low, ?_, ?_⟩
      · exact iff_of_true rfl (by positivity)
      · simp [ExtendedMantissa.ofMantissaAndAccuracy]
        ring
    · rw [compare_eq_iff_eq.2 half]
      refine ⟨0, le_rfl, one_pos, iff_of_false Bool.false_ne_true (by simp), ?_⟩
      have half : (2 * n : ℝ) = d := by exact_mod_cast half
      simp [ExtendedMantissa.ofMantissaAndAccuracy]
      field_simp
      linarith
    · have high : (d : ℝ) < 2 * n := by exact_mod_cast high
      have above : 1 < 2 * n / (d : ℝ) := (one_lt_div pos).2 high
      rw [compare_gt_iff_gt.2 (by assumption_mod_cast)]
      refine ⟨2 * n / d - 1, by linarith, ?_, ?_, ?_⟩
      · rw [sub_lt_iff_lt_add, div_lt_iff₀ pos]
        linarith
      · exact iff_of_true rfl (by linarith)
      · simp [ExtendedMantissa.ofMantissaAndAccuracy]
        ring

/-- The exponent that a quotient is computed at leaves it enough digits. -/
theorem quotient_room {m n : ℕ} {e f : ℤ} (mpos : 0 < m) (npos : 0 < n) {target : ℤ}
    (high : target ≤ e - f) (least : target ≤ max (m.log2 + 1 + e - (n.log2 + 1 + f) - 53) (-1074)) :
    target ≤ -1074 ∨ 2 ^ 52 ≤ m <<< (e - f - target).toNat / n := by
  rcases le_or_gt target (-1074) with subnormal | normal
  · exact .inl subnormal
  · right
    have left := Nat.log2_self_le mpos.ne'
    have right : n ≤ 2 ^ (n.log2 + 1) := Nat.lt_log2_self.le
    rw [Nat.shiftLeft_eq, Nat.le_div_iff_mul_le npos]
    calc 2 ^ 52 * n ≤ 2 ^ 52 * 2 ^ (n.log2 + 1) := Nat.mul_le_mul_left _ right
      _ = 2 ^ (52 + (n.log2 + 1)) := (pow_add ..).symm
      _ ≤ 2 ^ (m.log2 + (e - f - target).toNat) := Nat.pow_le_pow_right (by norm_num) (by omega)
      _ = 2 ^ m.log2 * 2 ^ (e - f - target).toNat := pow_add ..
      _ ≤ m * 2 ^ (e - f - target).toNat := Nat.mul_le_mul_right _ left

theorem roundsOff_div {u v : UnpackedFloat} {a b : ℝ} (ha : valueOf u = some (a : EReal))
    (hb : valueOf v = some (b : EReal)) (nonzero : b ≠ 0) :
    RoundsOff (a / b) (UnpackedFloat.div Format.binary64 u v) := by
  rcases finite_cases hb with ⟨t, rfl, rfl⟩ | ⟨t, n, f, npos, rfl, rfl⟩
  · exact absurd rfl nonzero
  rcases finite_cases ha with ⟨s, rfl, rfl⟩ | ⟨s, m, e, mpos, rfl, rfl⟩
  · rw [zero_div]
    exact roundsOff_self trivial rfl
  have bits : (Format.binary64.mantissaBits : ℤ) = 53 := rfl
  have lowest : Format.binary64.minExponent = -1074 := rfl
  simp only [UnpackedFloat.div, divCore, Format.targetExponent, Float.Model.totalExponent, bits,
    lowest]
  set target := min (e - f) (max (m.log2 + 1 + e - (n.log2 + 1 + f) - 53) (-1074))
  set k := (e - f - target).toNat with hk
  have kept : target + k = e - f := by omega
  have room : target ≤ -1074 ∨ 2 ^ 52 ≤ m <<< k / n :=
    quotient_room mpos npos (min_le_left _ _) (min_le_right _ _)
  obtain ⟨proper, w, faithful, value⟩ := roundWithAccuracy_spec (s / t)
    (represents_fraction (m <<< k / n) (Nat.mod_lt (m <<< k) npos)) room
  refine ⟨proper, w, ?_, value⟩
  have nonzero : (n : ℝ) ≠ 0 := by exact_mod_cast npos.ne'
  have quotient : ((m <<< k / n : ℕ) : ℝ) + (m <<< k % n : ℕ) / n = m * 2 ^ k / n := by
    rw [Nat.shiftLeft_eq, eq_div_iff nonzero, add_mul, div_mul_cancel₀ _ nonzero]
    exact_mod_cast Nat.div_add_mod' (m * 2 ^ k) n
  have scaled : (m : ℝ) * 2 ^ k / n * 2 ^ target = m * 2 ^ e / (n * 2 ^ f) := by
    have split : (2 : ℝ) ^ e = 2 ^ k * 2 ^ target * 2 ^ f := by
      rw [← zpow_natCast, ← zpow_add₀ (by norm_num), ← zpow_add₀ (by norm_num)]
      congr 1
      omega
    rw [split]
    field_simp
  rw [quotient, scaled, apply_div] at faithful
  rwa [apply_natCast s, apply_natCast t, mul_assoc, mul_assoc]

/-! ## Operations on doubles -/

section Doubles

variable {x y : Float} {a b : ℝ} (hx : value? x = some (a : EReal)) (hy : value? y = some (b : EReal))

include hx hy

theorem rounds_add : Rounds (a + b) (x + y) :=
  (roundsOff_add (proper_unpack x) (proper_unpack y) hx hy).packed rfl

theorem rounds_mul : Rounds (a * b) (x * y) :=
  (roundsOff_mul (proper_unpack x) (proper_unpack y) hx hy).packed rfl

theorem rounds_div (nonzero : b ≠ 0) : Rounds (a / b) (x / y) :=
  (roundsOff_div hx hy nonzero).packed rfl

theorem rounds_sub : Rounds (a - b) (x - y) := by
  have unpacked : (x - y).toModel.unpack = UnpackedFloat.unpack Format.binary64
      (UnpackedFloat.pack Format.binary64
        (UnpackedFloat.add Format.binary64 x.toModel.unpack y.toModel.unpack.neg)) :=
    congrArg (fun u => UnpackedFloat.unpack Format.binary64 (UnpackedFloat.pack Format.binary64 u))
      (unpacked_sub _ _)
  have proper : Proper y.toModel.unpack.neg := by
    have := proper_unpack y
    cases form : y.toModel.unpack with
    | finite s m e pos => rw [form] at this; exact this
    | _ => trivial
  have value : valueOf y.toModel.unpack.neg = some ((-b : ℝ) : EReal) := by
    unfold value? at hy
    rcases finite_cases hy with ⟨t, form, rfl⟩ | ⟨t, n, f, npos, form, rfl⟩ <;> rw [form]
    · simp [UnpackedFloat.neg, valueOf]
    · cases t <;> simp [UnpackedFloat.neg, valueOf, Sign.apply]
  rw [sub_eq_add_neg]
  exact (roundsOff_add (proper_unpack x) proper hx value).packed unpacked

end Doubles

theorem lt_limit {r : ℝ} (small : r ≤ 2 ^ 53) : r < limit := by
  have less : (2 : ℝ) ^ (53 : ℤ) < limit := zpow_lt_zpow_right₀ (by norm_num) (by norm_num)
  exact small.trans_lt ((zpow_natCast (2 : ℝ) 53).symm.trans_lt less)

theorem rounds_toFloat (n : UInt64) : Rounds n.toNat n.toFloat := by
  have rounds := roundsOff_normalize n.toNat 0 .positive
  rw [zpow_zero, mul_one, Int.cast_natCast] at rounds
  exact rounds.packed rfl

/-! ## Decimals -/

theorem value?_toFloat {m : ℕ} (small : m < 2 ^ 53) :
    value? m.toUInt64.toFloat = some ((m : ℝ) : EReal) := by
  have word : m.toUInt64.toNat = m := by
    rw [Nat.toUInt64, UInt64.toNat_ofNat', Nat.mod_eq_of_lt (by omega)]
  have rounds := rounds_toFloat m.toUInt64
  rw [word] at rounds
  refine rounds.value?_of_grid (Grid.natCast small.le) ?_
  rw [Nat.abs_cast]
  exact lt_limit (by exact_mod_cast small.le)

theorem toInt?_powersOfTen : ∀ e : Fin 23,
    toInt? Float.exactlyRepresentablePowersOfTen[(e : ℕ)] = some (10 ^ (e : ℕ)) := by
  decide +kernel

/-- A short decimal is a product or a quotient of doubles. -/
theorem rounds_ofScientific_short {m e : ℕ} (short : m < 2 ^ 53 ∧ e ≤ 22) (s : Bool) :
    Rounds (m * 10 ^ (if s then -(e : ℤ) else e)) (Float.ofScientific m s e) := by
  have known := toInt?_eq_some.1 (toInt?_powersOfTen ⟨e, by omega⟩)
  have listed : e < Float.exactlyRepresentablePowersOfTen.size := Nat.lt_succ_of_le short.2
  have power : value? Float.exactlyRepresentablePowersOfTen[e]
      = some (((10 : ℝ) ^ e : ℝ) : EReal) := by
    refine known.trans ?_
    push_cast
    rfl
  have mantissa := value?_toFloat short.1
  unfold Float.ofScientific
  rw [dif_pos short]
  cases s with
  | false =>
      rw [if_neg Bool.false_ne_true, zpow_natCast]
      exact rounds_mul mantissa power
  | true =>
      rw [if_pos rfl, zpow_neg, zpow_natCast, ← div_eq_mul_inv]
      exact rounds_div mantissa power (by positivity)

theorem roundsOff_ofScientific (m : ℕ) {e : ℤ} (bound : |e| ≤ 2048) :
    RoundsOff (m * 10 ^ e) (UnpackedFloat.ofScientific Format.binary64 m e) := by
  obtain ⟨low, high⟩ := abs_le.1 bound
  have bits : (2 : ℤ) ^ Format.binary64.exponentBits = 2048 := rfl
  unfold UnpackedFloat.ofScientific
  rw [bits]
  by_cases none : m = 0
  · rw [dif_pos none, none, Nat.cast_zero, zero_mul]
    exact roundsOff_self trivial rfl
  rw [dif_neg none, if_neg (by omega), if_neg (by omega)]
  split
  · obtain ⟨k, rfl⟩ := Int.eq_ofNat_of_zero_le ‹0 ≤ e›
    have room : (-53 + 0 : ℤ) ≤ -1074 ∨ 2 ^ 52 ≤ m <<< 53 * 10 ^ k := by
      rw [Nat.shiftLeft_eq]
      have := Nat.one_le_pow k 10 (by norm_num)
      right
      nlinarith [Nat.pos_of_ne_zero none]
    have exact : ((Sign.positive.apply (m <<< 53 * 10 ^ k : ℕ) : ℤ) : ℝ) * 2 ^ (-53 + 0 : ℤ)
        = m * 10 ^ (k : ℤ) := by
      simp only [Sign.apply, Nat.shiftLeft_eq, add_zero, Int.cast_natCast]
      push_cast
      rw [zpow_neg, zpow_natCast]
      norm_num
      ring
    have scaled := roundsOff_exact .positive room
    rwa [exact] at scaled
  · obtain ⟨k, rfl⟩ := Int.exists_eq_neg_ofNat (a := e) (by omega)
    have mantissa : valueOf (.finite .positive m 0 (Nat.pos_of_ne_zero none))
        = some ((m : ℝ) : EReal) := by
      simp [valueOf, Sign.apply]
    have power : valueOf (.finite .positive (10 ^ (- -(k : ℤ)).toNat) 0 (by positivity))
        = some (((10 : ℝ) ^ k : ℝ) : EReal) := by
      simp [valueOf, Sign.apply]
    rw [zpow_neg, zpow_natCast, ← div_eq_mul_inv]
    exact roundsOff_div mantissa power (by positivity)

/-- A decimal as a double. -/
theorem rounds_ofScientific (m : ℕ) {e : ℕ} (bound : e ≤ 2048) (s : Bool) :
    Rounds (m * 10 ^ (if s then -(e : ℤ) else e)) (Float.ofScientific m s e) := by
  by_cases short : m < 2 ^ 53 ∧ e ≤ 22
  · exact rounds_ofScientific_short short s
  have long : (Float.ofScientific m s e).toModel.unpack
      = UnpackedFloat.unpack Format.binary64 (UnpackedFloat.pack Format.binary64
        (UnpackedFloat.ofScientific Format.binary64 m (if s then -(e : ℤ) else e))) := by
    have exponent : (if s then -(e : ℤ) else e) = if s then Int.negOfNat e else Int.ofNat e := by
      rw [Int.negOfNat_eq]
      rfl
    rw [exponent]
    unfold Float.ofScientific
    rw [dif_neg short]
    rfl
  refine (roundsOff_ofScientific m ?_).packed long
  split
  · rw [abs_neg, Nat.abs_cast]
    exact_mod_cast bound
  · rw [Nat.abs_cast]
    exact_mod_cast bound

/-- A natural number as a double. -/
theorem rounds_ofNat (n : ℕ) : Rounds n (Float.ofNat n) := by
  have rounds := rounds_ofScientific n (e := 0) (by norm_num) false
  rw [if_neg Bool.false_ne_true, Nat.cast_zero, zpow_zero, mul_one] at rounds
  exact rounds

theorem Rounds.neg {z : ℝ} {x : Float} (h : Rounds z x) : Rounds (-z) (-x) := by
  obtain ⟨v, faithful, value⟩ := h
  refine ⟨-v, faithful.neg, ?_⟩
  rw [value?_neg value, clip_neg]

/-- A whole number as a double. -/
theorem rounds_ofInt (n : ℤ) : Rounds n (Float.ofInt n) := by
  cases n with
  | ofNat n =>
      have := rounds_ofNat n
      rw [← Int.cast_natCast] at this
      exact this
  | negSucc n =>
      have := (rounds_ofNat (n + 1)).neg
      rw [Int.cast_negSucc]
      exact this

/-- Where a double holds a whole number, `Float.ofInt` finds it. -/
theorem toInt?_ofInt {x : Float} {n : ℤ} (whole : toInt? x = some n) :
    toInt? (Float.ofInt n) = some n := by
  obtain ⟨grid, bound⟩ := grid_of_value? (toInt?_eq_some.1 whole)
  exact toInt?_eq_some.2 ((rounds_ofInt n).value?_of_grid grid bound)

theorem toInt?_ofInt_of_abs_le {n : ℤ} (small : |n| ≤ 2 ^ 53) :
    toInt? (Float.ofInt n) = some n := by
  refine toInt?_eq_some.2 ((rounds_ofInt n).value?_of_grid (Grid.intCast small) ?_)
  exact lt_limit (by exact_mod_cast small)

theorem value?_add_of_infinite {x y : Float} {r : ℝ} {a : EReal}
    (hx : value? x = some (r : EReal)) (hy : value? y = some a) (infinite : a = ⊤ ∨ a = ⊥) :
    value? (x + y) = some a := by
  have unpacked : (x + y).toModel.unpack = UnpackedFloat.unpack Format.binary64
      (UnpackedFloat.pack Format.binary64
        (UnpackedFloat.add Format.binary64 x.toModel.unpack y.toModel.unpack)) := rfl
  have clipped : clip a = a := by
    rcases infinite with rfl | rfl
    · exact clip_top
    · exact clip_bot
  have sum : UnpackedFloat.add Format.binary64 x.toModel.unpack y.toModel.unpack
      = y.toModel.unpack := by
    cases right : y.toModel.unpack with
    | infinity t => rcases finite_cases hx with ⟨s, left, -⟩ | ⟨s, m, e, pos, left, -⟩ <;>
        rw [left] <;> rfl
    | notANumber => rw [value?, right] at hy; cases hy
    | zero t =>
        rw [value?, right] at hy
        obtain rfl := Option.some.inj hy
        simp at infinite
    | finite t n f pos =>
        rw [value?, right] at hy
        obtain rfl := Option.some.inj hy
        rcases infinite with top | bottom
        · exact absurd top (EReal.coe_ne_top _)
        · exact absurd bottom (EReal.coe_ne_bot _)
  unfold value? at hy ⊢
  rw [unpacked, sum, valueOf_unpack_pack (proper_unpack y), hy, Option.map_some, clipped]

/-- A whole double and one that is whole or infinite have a sum of that kind. -/
theorem Whole.add {x y : Float} {n : ℤ} (hx : toInt? x = some n) (hy : Whole y) :
    Whole (x + y) := by
  have hx := toInt?_eq_some.1 hx
  obtain ⟨a, hy, rfl | rfl | ⟨m, rfl⟩⟩ := hy
  · exact ⟨⊤, value?_add_of_infinite hx hy (.inl rfl), .inl rfl⟩
  · exact ⟨⊥, value?_add_of_infinite hx hy (.inr rfl), .inr (.inl rfl)⟩
  · have := rounds_add hx hy
    rw [← Int.cast_add] at this
    exact this.whole

theorem Whole.neg {x : Float} (hx : Whole x) : Whole (-x) := by
  obtain ⟨a, value, rfl | rfl | ⟨n, rfl⟩⟩ := hx
  · exact ⟨_, value?_neg value, .inr (.inl EReal.neg_top)⟩
  · exact ⟨_, value?_neg value, .inl EReal.neg_bot⟩
  · exact ⟨_, value?_neg value, .inr (.inr ⟨-n, by rw [Int.cast_neg, EReal.coe_neg]⟩)⟩

theorem whole_of_toInt? {x : Float} {n : ℤ} (hx : toInt? x = some n) : Whole x :=
  ⟨_, toInt?_eq_some.1 hx, .inr (.inr ⟨n, rfl⟩)⟩

theorem Whole.greater {x y : Float} (hx : Whole x) (hy : Whole y) : Whole (greater x y) := by
  obtain ⟨a, xvalue, xwhole⟩ := hx
  obtain ⟨b, yvalue, ywhole⟩ := hy
  refine ⟨max a b, value?_greater xvalue yvalue, ?_⟩
  rcases max_choice a b with left | right
  · rwa [left]
  · rwa [right]

/-- Rounding gives whole numbers, and keeps infinities. -/
theorem whole_round {x : Float} {a : EReal} (hx : value? x = some a) : Whole (round x) := by
  unfold round
  cases form : Binary.ofFloat? x with
  | some b =>
      show Whole (ofWhole b.negative b.nearest)
      unfold ofWhole
      split
      · have zero : toInt? (-0.0) = some 0 := by decide +kernel
        exact whole_of_toInt? zero
      · exact (rounds_ofInt _).whole
  | none =>
      rcases value?_of_ofFloat?_eq_none form with nan | top | bottom
      · rw [nan] at hx; cases hx
      · exact ⟨⊤, top, .inl rfl⟩
      · exact ⟨⊥, bottom, .inr (.inl rfl)⟩

/-! ## Doubles by their values -/

theorem Canonical.unique {m n : ℕ} {e f : ℤ} (hm : Canonical m e) (hn : Canonical n f)
    (same : (m : ℝ) * 2 ^ e = n * 2 ^ f) : m = n ∧ e = f := by
  have ordered := hm.cmp_eq hn
  rw [same, cmp_self_eq_eq, Ordering.then_eq_eq] at ordered
  exact ⟨compare_eq_iff_eq.1 ordered.2, compare_eq_iff_eq.1 ordered.1⟩

theorem eq_of_unpack {x y : Float} (same : x.toModel.unpack = y.toModel.unpack) : x = y := by
  refine Float.toBits_inj.1 (UInt64.toBitVec_inj.1 ?_)
  exact (Float.Model.UnpackedFloat.unpack_inj_of_valid x.toModel.valid y.toModel.valid).1 same

/-- Only the zeros are two doubles of one value. -/
theorem eq_of_value? {x y : Float} {r : ℝ} (hx : value? x = some (r : EReal))
    (hy : value? y = some (r : EReal)) (nonzero : r ≠ 0) : x = y := by
  apply eq_of_unpack
  rcases finite_cases hx with ⟨s, -, zero⟩ | ⟨s, m, e, mpos, left, value⟩
  · exact absurd zero nonzero
  rcases finite_cases hy with ⟨s, -, zero⟩ | ⟨t, n, f, npos, right, value'⟩
  · exact absurd zero nonzero
  have canonical := (unpack_canonical left).1
  have canonical' := (unpack_canonical right).1
  have positive := scaled_pos e mpos
  have positive' := scaled_pos f npos
  rw [left, right]
  rw [value] at value'
  cases s <;> cases t <;>
    simp only [Sign.apply, Int.cast_neg, Int.cast_natCast, neg_mul] at value'
  case negative.negative =>
      obtain ⟨rfl, rfl⟩ := canonical.unique canonical' (neg_injective value')
      rfl
  case positive.positive =>
      obtain ⟨rfl, rfl⟩ := canonical.unique canonical' value'
      rfl
  all_goals linarith

end AlphaFoundry.Number
