/-
# AlphaFoundry.Proofs.Number.Shortest -- the shortest decimal is read as the double it was made from

A double covers the reals between the halfway points to its neighbours.  `Binary.readsBack` decides
whether it covers a decimal, and the decimal that `shortest` chooses passes this test; where no short
one does, it is the double's own value.  A number that a double covers is rounded to this double, so
the shortest decimal reads back, in any way of writing its digits and its exponent.
-/
import Mathlib
import AlphaFoundry.Number.Reading
import AlphaFoundry.Number.Shortest
import AlphaFoundry.Proofs.Number.Arithmetic

namespace AlphaFoundry.Number

set_option autoImplicit false

open Float.Model (UnpackedFloat)

/-! ## Decimals and what a double covers -/

noncomputable def Decimal.value (d : Decimal) : ℝ :=
  d.digits * 10 ^ d.exponent

theorem zpow_mul_pow_toNat {b : ℝ} (pos : 0 < b) (i : ℤ) :
    b ^ i * b ^ (-i).toNat = b ^ i.toNat := by
  rw [← zpow_natCast, ← zpow_natCast, ← zpow_add₀ pos.ne']
  congr 1
  omega

theorem compareScaled_eq (a : ℕ) (i : ℤ) (n : ℕ) (j : ℤ) :
    compareScaled a i n j = cmp ((a : ℝ) * 10 ^ i) (n * 2 ^ j) := by
  have common : (0 : ℝ) < 10 ^ (-i).toNat * 2 ^ (-j).toNat := by positivity
  have left : (a : ℝ) * 10 ^ i * (10 ^ (-i).toNat * 2 ^ (-j).toNat)
      = ((a * 10 ^ i.toNat * 2 ^ (-j).toNat : ℕ) : ℝ) := by
    push_cast
    rw [← zpow_mul_pow_toNat (by norm_num) i]
    ring
  have right : (n : ℝ) * 2 ^ j * (10 ^ (-i).toNat * 2 ^ (-j).toNat)
      = ((n * 2 ^ j.toNat * 10 ^ (-i).toNat : ℕ) : ℝ) := by
    push_cast
    rw [← zpow_mul_pow_toNat (by norm_num) j]
    ring
  rw [← cmp_mul_pos_right common, left, right, Nat.strictMono_cast.cmp_map_eq, cmp_eq_compare]
  rfl

namespace Binary

variable {b : Binary} {z : ℝ}

theorem value_eq_size (b : Binary) : b.value = if b.negative then -b.size else b.size := by
  unfold value signed size
  split
  · push_cast
    ring
  · rfl

/-- A real between the halfway points; they count for an even mantissa. -/
structure Covers (b : Binary) (z : ℝ) : Prop where
  above : b.lowest < z ∨ 2 ∣ b.mantissa ∧ z = b.lowest
  below : z < b.highest ∨ 2 ∣ b.mantissa ∧ z = b.highest

theorem readsBack_iff (b : Binary) (d : Decimal) : b.readsBack d = true ↔ b.Covers d.value := by
  have parity : (b.mantissa % 2 == 0) = true ↔ 2 ∣ b.mantissa := by
    rw [beq_iff_eq, Nat.dvd_iff_mod_eq_zero]
  unfold readsBack
  simp only [compareScaled_eq, Bool.and_eq_true, Bool.or_eq_true, parity, beq_iff_eq,
    cmp_eq_gt_iff, cmp_eq_lt_iff, cmp_eq_eq_iff]
  exact ⟨fun ⟨above, below⟩ => ⟨above, below⟩, fun ⟨above, below⟩ => ⟨above, below⟩⟩

theorem Covers.bounds (covers : b.Covers z) : b.lowest ≤ z ∧ z ≤ b.highest :=
  ⟨covers.above.elim le_of_lt fun h => h.2.ge, covers.below.elim le_of_lt fun h => h.2.le⟩

theorem quarter (e : ℤ) : (2 : ℝ) ^ e = 4 * 2 ^ (e - 2) := by
  rw [zpow_sub₀ (by norm_num)]
  norm_num
  ring

theorem covers_size (positive : 0 < b.mantissa) : b.Covers b.size := by
  have unit : (0 : ℝ) < 2 ^ (b.exponent - 2) := by positivity
  have whole : b.size = (4 * b.mantissa : ℕ) * 2 ^ (b.exponent - 2) := by
    rw [size, quarter]
    push_cast
    ring
  rw [whole]
  refine ⟨.inl ?_, .inl ?_⟩
  · refine mul_lt_mul_of_pos_right ?_ unit
    exact_mod_cast (by split <;> omega : _ < 4 * b.mantissa)
  · refine mul_lt_mul_of_pos_right ?_ unit
    exact_mod_cast (by omega : 4 * b.mantissa < 4 * b.mantissa + 2)

end Binary

/-! ## What is covered is rounded to the double -/

section Gap

variable {z v : ℝ} {n : ℕ} {f : ℤ} (least : -1074 ≤ f) (small : n + 1 ≤ 2 ^ 53)
  (full : 2 ^ 52 ≤ n ∨ f = -1074) (faithful : Faithful z v)

include least small full faithful

/-- What lies between two neighbours of the grid is rounded to one of them, with the least error and
then to the even one. -/
theorem Faithful.neighbour (above : n * 2 ^ f ≤ z) (below : z ≤ (n + 1 : ℕ) * 2 ^ f) :
    (v = n * 2 ^ f ∧ z ≤ (n + 1 / 2) * 2 ^ f ∧ (z = (n + 1 / 2) * 2 ^ f → 2 ∣ n)) ∨
      (v = (n + 1 : ℕ) * 2 ^ f ∧ (n + 1 / 2) * 2 ^ f ≤ z ∧ (z = (n + 1 / 2) * 2 ^ f → ¬2 ∣ n)) := by
  have unit : (0 : ℝ) < 2 ^ f := by positivity
  have grid {k : ℕ} (bound : k ≤ 2 ^ 53) : Grid ((k : ℝ) * 2 ^ f) :=
    ⟨k, f, by rw [Nat.abs_cast]; exact_mod_cast bound, least, by push_cast; ring⟩
  have low := grid (Nat.le_of_succ_le small)
  have high := grid small
  have gap : ((n + 1 : ℕ) : ℝ) * 2 ^ f = n * 2 ^ f + 2 ^ f := by push_cast; ring
  have half : (n + 1 / 2 : ℝ) * 2 ^ f = n * 2 ^ f + 2 ^ f / 2 := by ring
  rw [gap] at below high ⊢
  rw [half]
  have parity {k : ℤ} {a : ℕ} (even : (a : ℝ) * 2 ^ f = 2 * k * 2 ^ f) : 2 ∣ a := by
    have : (a : ℤ) = 2 * k := by exact_mod_cast mul_right_cancel₀ unit.ne' even
    omega
  rcases eq_or_lt_of_le (faithful.below _ low above) with lower | more
  · left
    have near := faithful.near _ high
    rw [← lower, abs_of_nonneg (by linarith), abs_of_nonpos (by linarith)] at near
    refine ⟨lower.symm, by linarith, fun tie => ?_⟩
    obtain ⟨k, even⟩ := faithful.even _ high (by linarith) (by
      rw [← lower, abs_of_nonneg (by linarith), abs_of_nonpos (by linarith)]
      linarith)
    exact parity (k := -k) (by push_cast; linear_combination even + lower - 2 * k * lower)
  · right
    have upper : v = n * 2 ^ f + 2 ^ f := by
      refine le_antisymm (faithful.above _ high below) ?_
      rw [← gap]
      exact faithful.grid.not_between full more
    have near := faithful.near _ low
    rw [upper, abs_of_nonpos (by linarith), abs_of_nonneg (by linarith)] at near
    refine ⟨upper, by linarith, fun tie => ?_⟩
    obtain ⟨k, even⟩ := faithful.even _ low (by linarith) (by
      rw [upper, abs_of_nonpos (by linarith), abs_of_nonneg (by linarith)]
      linarith)
    have : 2 ∣ n + 1 :=
      parity (k := k) (by rw [gap]; linear_combination even + (2 * k - 1) * upper)
    omega

end Gap

namespace Binary

variable {b : Binary} {x : Float} {z v : ℝ}

/-- The exact form of a double other than zero. -/
structure Formed (b : Binary) : Prop where
  canonical : Canonical b.mantissa b.exponent
  bound : b.exponent ≤ 971
  positive : 0 < b.mantissa
  narrow : b.narrowBelow = true ↔ b.mantissa = 2 ^ 52 ∧ b.exponent ≠ -1074

theorem formed_of_ofFloat? (form : ofFloat? x = some b) (nonzero : b.mantissa ≠ 0) : b.Formed := by
  rw [ofFloat?_eq] at form
  cases unpacked : x.toModel.unpack with
  | notANumber => rw [unpacked] at form; cases form
  | infinity s => rw [unpacked] at form; cases form
  | zero s =>
      rw [unpacked] at form
      obtain rfl := Option.some.inj form
      exact absurd rfl nonzero
  | finite s m e pos =>
      rw [unpacked] at form
      obtain rfl := Option.some.inj form
      obtain ⟨canonical, bound⟩ := unpack_canonical unpacked
      exact ⟨canonical, bound, pos, by simp⟩

/-- The neighbour below a double, and the halfway point to it. -/
theorem Formed.below (formed : b.Formed) : ∃ (n : ℕ) (f : ℤ), -1074 ≤ f ∧ n + 1 ≤ 2 ^ 53 ∧
    (2 ^ 52 ≤ n ∨ f = -1074) ∧ b.size = (n + 1 : ℕ) * 2 ^ f ∧
    b.lowest = (n + 1 / 2) * 2 ^ f ∧ (2 ∣ b.mantissa → ¬2 ∣ n) := by
  obtain ⟨⟨small, least, full⟩, bound, positive, narrow⟩ := formed
  obtain ⟨m, exponent⟩ : ∃ m, b.mantissa = m + 1 := Nat.exists_eq_succ_of_ne_zero positive.ne'
  by_cases half : b.narrowBelow = true
  · obtain ⟨power, higher⟩ := narrow.1 half
    refine ⟨2 ^ 53 - 1, b.exponent - 1, by omega, by norm_num, .inl (by norm_num), ?_, ?_, by omega⟩
    · rw [size, power, show (2 : ℝ) ^ b.exponent = 2 * 2 ^ (b.exponent - 1) by
        rw [zpow_sub_one₀ (by norm_num)]; ring]
      norm_num
      ring
    · rw [lowest, if_pos half, power, show b.exponent - 2 = b.exponent - 1 - 1 by ring,
        zpow_sub_one₀ (by norm_num) (b.exponent - 1)]
      norm_num
      ring
  · have wide := mt narrow.2 half
    refine ⟨m, b.exponent, least, by omega, by omega, ?_, ?_, by omega⟩
    · rw [size, exponent]
    · rw [lowest, if_neg half, exponent, show 4 * (m + 1) - 2 = 4 * m + 2 by omega,
        quarter b.exponent]
      push_cast
      ring

/-- A real that a double covers is rounded to it. -/
theorem Formed.rounded (formed : b.Formed) (covers : b.Covers z) (faithful : Faithful z v) :
    v = b.size := by
  have unit : (0 : ℝ) < 2 ^ b.exponent := by positivity
  have half : b.highest = (b.mantissa + 1 / 2) * 2 ^ b.exponent := by
    rw [highest, quarter b.exponent]
    push_cast
    ring
  rcases le_total b.size z with above | below
  · obtain ⟨small, least, full⟩ := formed.canonical
    have near := covers.bounds.2
    have upper : z ≤ (b.mantissa + 1 : ℕ) * 2 ^ b.exponent := by
      push_cast
      linarith
    rcases faithful.neighbour least small full above upper with
      ⟨lower, -⟩ | ⟨-, far, odd⟩
    · exact lower
    · rw [← half] at far odd
      rcases covers.below with less | ⟨even, tie⟩
      · linarith
      · exact absurd even (odd tie)
  · obtain ⟨n, f, least, small, full, size, lowest, parity⟩ := formed.below
    have unit : (0 : ℝ) < 2 ^ f := by positivity
    have near := covers.bounds.1
    have above : n * 2 ^ f ≤ z := by linarith
    rw [size] at below
    rcases faithful.neighbour least small full above below with
      ⟨-, far, even⟩ | ⟨upper, -⟩
    · rw [← lowest] at far even
      rcases covers.above with more | ⟨divides, tie⟩
      · linarith
      · exact absurd (even tie) (parity divides)
    · rw [size, upper]

end Binary

/-! ## The decimal that is chosen -/

namespace Decimal

theorem strip_value : ∀ (fuel : ℕ) (d : Decimal), (d.strip fuel).value = d.value
  | 0, d => rfl
  | fuel + 1, d => by
      unfold strip
      split
      · rename_i tens
        rw [strip_value fuel]
        have divides : d.digits / 10 * 10 = d.digits := by
          simp only [Bool.and_eq_true, beq_iff_eq] at tens
          omega
        have digits : ((d.digits / 10 : ℕ) : ℝ) * 10 = d.digits := by exact_mod_cast divides
        simp only [value]
        rw [zpow_add_one₀ (by norm_num), ← digits]
        ring
      · rfl

theorem exponent_le_strip : ∀ (fuel : ℕ) (d : Decimal), d.exponent ≤ (d.strip fuel).exponent
  | 0, d => le_rfl
  | fuel + 1, d => by
      unfold strip
      split
      · exact (Int.le_add_one le_rfl).trans (exponent_le_strip fuel _)
      · exact le_rfl

end Decimal

namespace Binary

variable {b : Binary} {grid : ℤ} {d : Decimal}

theorem onGrid?_eq_some (found : b.onGrid? grid = some d) :
    b.readsBack d = true ∧ d.exponent = grid := by
  unfold onGrid? at found
  dsimp only at found
  split at found
  · rename_i back _
    obtain rfl := Option.some.inj found
    exact ⟨back, rfl⟩
  · rename_i _ back
    obtain rfl := Option.some.inj found
    exact ⟨back, rfl⟩
  · cases found
  · rename_i lower upper
    split at found
    · obtain rfl := Option.some.inj found
      exact ⟨lower, rfl⟩
    · obtain rfl := Option.some.inj found
      exact ⟨upper, rfl⟩
    · obtain rfl := Option.some.inj found
      split
      · exact ⟨lower, rfl⟩
      · exact ⟨upper, rfl⟩

theorem le_magnitude (least : -1074 ≤ b.exponent) : -325 ≤ b.magnitude := by
  unfold magnitude
  dsimp only
  cases found : List.find? _ _ with
  | none =>
      rw [Option.getD_none]
      omega
  | some k =>
      have member := List.mem_of_find?_eq_some found
      simp only [List.mem_cons, List.not_mem_nil, or_false] at member
      rw [Option.getD_some]
      omega

/-- Any decimal would do that is the double's own value. -/
theorem exact_value (b : Binary) :
    (if b.exponent < 0 then ⟨b.mantissa * Nat.pow 5 (-b.exponent).toNat, b.exponent⟩
      else ⟨b.mantissa * Nat.pow 2 b.exponent.toNat, 0⟩ : Decimal).value = b.size := by
  simp only [Nat.pow_eq]
  split
  · rename_i negative
    obtain ⟨k, exponent⟩ := Int.exists_eq_neg_ofNat negative.le
    simp only [Decimal.value, size, exponent, neg_neg, Int.toNat_natCast]
    push_cast
    rw [zpow_neg, zpow_neg, zpow_natCast, zpow_natCast, show (10 : ℝ) = 5 * 2 by norm_num, mul_pow]
    field_simp
  · rename_i positive
    obtain ⟨k, exponent⟩ := Int.eq_ofNat_of_zero_le (not_lt.1 positive)
    simp [Decimal.value, size, exponent]

/-- The shortest decimal is covered, and its exponent is not below the one that doubles end at. -/
theorem Formed.shortest (formed : b.Formed) :
    b.Covers b.shortest.value ∧ -1074 ≤ b.shortest.exponent := by
  have stripped (fuel : ℕ) (d : Decimal) (covers : b.Covers d.value) (least : -1074 ≤ d.exponent) :
      b.Covers (d.strip fuel).value ∧ -1074 ≤ (d.strip fuel).exponent := by
    rw [Decimal.strip_value]
    exact ⟨covers, least.trans (Decimal.exponent_le_strip fuel d)⟩
  unfold Binary.shortest
  dsimp only
  cases found : List.findSome? _ _ with
  | some d =>
      obtain ⟨n, member, onGrid⟩ := List.exists_of_findSome?_eq_some found
      obtain ⟨back, exponent⟩ := onGrid?_eq_some onGrid
      have short := List.mem_range.1 member
      have := le_magnitude formed.canonical.least
      exact stripped _ d ((b.readsBack_iff d).1 back) (by rw [exponent]; omega)
  | none =>
      refine stripped _ _ ?_ ?_
      · rw [Option.getD_none, exact_value]
        exact covers_size formed.positive
      · rw [Option.getD_none]
        split
        · exact formed.canonical.least
        · norm_num

end Binary

/-! ## Reading a decimal -/

theorem two_pow_le_ten_pow (j : ℕ) : 2 ^ (93 * (j / 28)) ≤ 10 ^ j := by
  calc 2 ^ (93 * (j / 28)) = (2 ^ 93) ^ (j / 28) := pow_mul ..
    _ ≤ (10 ^ 28) ^ (j / 28) := Nat.pow_le_pow_left (by norm_num) _
    _ = 10 ^ (28 * (j / 28)) := (pow_mul ..).symm
    _ ≤ 10 ^ j := Nat.pow_le_pow_right (by norm_num) (Nat.mul_div_le j 28)

theorem ten_pow_le_two_pow (j : ℕ) : 10 ^ j ≤ 2 ^ (10 * ((j + 2) / 3)) := by
  calc 10 ^ j ≤ 10 ^ (3 * ((j + 2) / 3)) := Nat.pow_le_pow_right (by norm_num) (by omega)
    _ = (10 ^ 3) ^ ((j + 2) / 3) := pow_mul ..
    _ ≤ (2 ^ 10) ^ ((j + 2) / 3) := Nat.pow_le_pow_left (by norm_num) _
    _ = 2 ^ (10 * ((j + 2) / 3)) := (pow_mul ..).symm

/-- The order of magnitude of a decimal in the range of doubles is far from where reading stops. -/
theorem order_between {m : ℕ} {k : ℤ} (least : -1074 ≤ k)
    (low : (2 : ℝ) ^ (-1075 : ℤ) ≤ m * 10 ^ k) (high : m * 10 ^ k < (2 : ℝ) ^ (1025 : ℤ)) :
    m ≠ 0 ∧ -400 ≤ (m.log2 : ℤ) * 30103 / 100000 + k ∧ (m.log2 : ℤ) * 30103 / 100000 + k ≤ 400 := by
  have nonzero : m ≠ 0 := by
    rintro rfl
    rw [Nat.cast_zero, zero_mul] at low
    have : (0 : ℝ) < 2 ^ (-1075 : ℤ) := by positivity
    linarith
  have digits := Nat.log2_self_le nonzero
  have under : m < 2 ^ (m.log2 + 1) := Nat.lt_log2_self
  refine ⟨nonzero, ?_⟩
  rcases le_total 0 k with up | down
  · obtain ⟨j, rfl⟩ := Int.eq_ofNat_of_zero_le up
    have bound : 2 ^ (m.log2 + 93 * (j / 28)) < 2 ^ 1025 := by
      calc 2 ^ (m.log2 + 93 * (j / 28)) = 2 ^ m.log2 * 2 ^ (93 * (j / 28)) := pow_add ..
        _ ≤ m * 10 ^ j := Nat.mul_le_mul digits (two_pow_le_ten_pow j)
        _ < 2 ^ 1025 := by exact_mod_cast high
    have := (Nat.pow_lt_pow_iff_right (by norm_num)).1 bound
    omega
  · obtain ⟨j, rfl⟩ := Int.exists_eq_neg_ofNat down
    rw [zpow_neg (10 : ℝ), zpow_natCast, ← div_eq_mul_inv] at low high
    have power : (0 : ℝ) < 10 ^ j := by positivity
    have above : 2 ^ m.log2 < 2 ^ (1025 + 10 * ((j + 2) / 3)) := by
      rw [div_lt_iff₀ power] at high
      calc 2 ^ m.log2 ≤ m := digits
        _ < 2 ^ 1025 * 10 ^ j := by exact_mod_cast high
        _ ≤ 2 ^ 1025 * 2 ^ (10 * ((j + 2) / 3)) := Nat.mul_le_mul_left _ (ten_pow_le_two_pow j)
        _ = 2 ^ (1025 + 10 * ((j + 2) / 3)) := (pow_add ..).symm
    have below : 2 ^ (93 * (j / 28)) < 2 ^ (1075 + (m.log2 + 1)) := by
      rw [le_div_iff₀ power, zpow_neg, inv_mul_le_iff₀ (by positivity)] at low
      calc 2 ^ (93 * (j / 28)) ≤ 10 ^ j := two_pow_le_ten_pow j
        _ ≤ 2 ^ 1075 * m := by exact_mod_cast low
        _ < 2 ^ 1075 * 2 ^ (m.log2 + 1) := Nat.mul_lt_mul_of_pos_left under (by positivity)
        _ = 2 ^ (1075 + (m.log2 + 1)) := (pow_add ..).symm
    have := (Nat.pow_lt_pow_iff_right (by norm_num)).1 above
    have := (Nat.pow_lt_pow_iff_right (by norm_num)).1 below
    omega

theorem rounds_decimal {m : ℕ} {k : ℤ} (least : -1074 ≤ k)
    (low : (2 : ℝ) ^ (-1075 : ℤ) ≤ m * 10 ^ k) (high : m * 10 ^ k < (2 : ℝ) ^ (1025 : ℤ)) :
    Rounds (m * 10 ^ k) (decimal m k) := by
  obtain ⟨nonzero, small, large⟩ := order_between least low high
  unfold decimal
  dsimp only
  rw [if_neg (by simp [nonzero]; omega), if_neg (by omega)]
  have rounds := rounds_ofScientific m (e := k.natAbs) (by omega) (k < 0)
  have exponent : (if decide (k < 0) = true then -(k.natAbs : ℤ) else k.natAbs) = k := by
    rcases lt_or_ge k 0 with negative | nonneg
    · rw [if_pos (decide_eq_true negative)]
      omega
    · rw [if_neg (by simpa using nonneg)]
      omega
  rwa [exponent] at rounds

namespace Binary

variable {b : Binary}

theorem Formed.le_lowest (formed : b.Formed) : (2 : ℝ) ^ (-1075 : ℤ) ≤ b.lowest := by
  have positive := formed.positive
  have least : (2 : ℝ) ^ (-1076 : ℤ) ≤ 2 ^ (b.exponent - 2) :=
    zpow_le_zpow_right₀ (by norm_num) (by have := formed.canonical.least; omega)
  have units : (2 : ℝ) ≤ (if b.narrowBelow then 4 * b.mantissa - 1 else 4 * b.mantissa - 2 : ℕ) := by
    exact_mod_cast (by split <;> omega : 2 ≤ _)
  calc (2 : ℝ) ^ (-1075 : ℤ) = 2 * 2 ^ (-1076 : ℤ) := by
        rw [← zpow_one_add₀ (by norm_num)]
        norm_num
    _ ≤ b.lowest := mul_le_mul units least (by positivity) (by positivity)

theorem Formed.highest_lt (formed : b.Formed) : b.highest < (2 : ℝ) ^ (1025 : ℤ) := by
  have small := formed.canonical.small
  have most : (2 : ℝ) ^ (b.exponent - 2) ≤ 2 ^ (969 : ℤ) :=
    zpow_le_zpow_right₀ (by norm_num) (by have := formed.bound; omega)
  have units : ((4 * b.mantissa + 2 : ℕ) : ℝ) < 2 ^ (56 : ℤ) := by
    exact_mod_cast (by omega : 4 * b.mantissa + 2 < 2 ^ 56)
  calc b.highest ≤ (4 * b.mantissa + 2 : ℕ) * 2 ^ (969 : ℤ) :=
        mul_le_mul_of_nonneg_left most (by positivity)
    _ < 2 ^ (56 : ℤ) * 2 ^ (969 : ℤ) := mul_lt_mul_of_pos_right units (by positivity)
    _ = 2 ^ (1025 : ℤ) := by
        rw [← zpow_add₀ (by norm_num)]
        norm_num

/-- A decimal that a double covers is read as its absolute value. -/
theorem Formed.value?_decimal (formed : b.Formed) {m : ℕ} {k : ℤ} (least : -1074 ≤ k)
    (covers : b.Covers (m * 10 ^ k)) : value? (decimal m k) = some (b.size : EReal) := by
  obtain ⟨above, below⟩ := covers.bounds
  have low := formed.le_lowest.trans above
  have high := below.trans_lt formed.highest_lt
  obtain ⟨v, faithful, value⟩ := rounds_decimal least low high
  rw [value, formed.rounded covers faithful, clip_coe_of_lt]
  rw [abs_of_nonneg (by unfold Binary.size; positivity)]
  exact formed.canonical.scaled_lt_limit formed.bound

end Binary

end AlphaFoundry.Number
