/-
# AlphaFoundry.Proofs.Number.Digits -- numbers that are read back from their texts

A double other than zero is determined by its value.  So window lengths are whole numbers and
nothing else, and the literals of a blend are hundredths.  Both are few; that the numeral reader
gives each of them back from its text is computed.  What it reads has the letters of a numeral.
-/
import Mathlib
import AlphaFoundry.Expr.Render
import AlphaFoundry.Number.Reading
import AlphaFoundry.Proofs.Generation.Weight
import AlphaFoundry.Proofs.Json.Numeral
import AlphaFoundry.Proofs.Number.Count

namespace AlphaFoundry.Number

open Float.Model UnpackedFloat

set_option autoImplicit false

variable {x y : Float}

/-! ## Whole doubles by their values -/

theorem eq_ofNat_of_toInt? {n : ℕ} (whole : toInt? x = some (n : ℤ)) (positive : 0 < n)
    (small : n ≤ 2 ^ 53) : x = Float.ofNat n := by
  have value := toInt?_eq_some.1 whole
  rw [Int.cast_natCast] at value
  exact eq_of_value? value (value?_ofNat small) (by exact_mod_cast positive.ne')

/-! ## What is read -/

/-- The letters of unsigned decimals. -/
def isNumeric (c : Char) : Bool :=
  c.isDigit || ['.', 'e', 'E', '+', '-'].contains c

theorem numeric_of_digits {cs : List Char} (digits : ∀ c ∈ cs, c.isDigit = true) :
    ∀ c ∈ cs, isNumeric c = true :=
  fun c member => by rw [isNumeric, digits c member, Bool.true_or]

theorem numeric_of_exponentOf? {cs : List Char} {e : ℤ} (read : exponentOf? cs = some (e, [])) :
    ∀ c ∈ cs, isNumeric c = true := by
  have digits {cs : List Char} {n : ℕ} (read : exponentOf?.unsigned? cs = some (n, [])) :
      ∀ c ∈ cs, isNumeric c = true := by
    unfold exponentOf?.unsigned? at read
    split at read
    · cases read
    · rename_i ds rest _ cut
      obtain ⟨-, rfl⟩ := Prod.mk.inj (Option.some.inj read)
      obtain ⟨rfl, digits⟩ := spanDigits_eq cut
      simpa using numeric_of_digits digits
  unfold exponentOf? at read
  split at read
  all_goals
    obtain ⟨⟨n, rest⟩, read, same⟩ := Option.map_eq_some_iff.1 read
    obtain ⟨-, rfl⟩ := Prod.mk.inj same
    have := digits read
  · exact List.forall_mem_cons.2 ⟨by decide, this⟩
  · exact List.forall_mem_cons.2 ⟨by decide, this⟩
  · exact this

theorem numeric_of_finish? {whole fraction rest : List Char}
    (read : finish? whole fraction rest = some x) : ∀ c ∈ rest, isNumeric c = true := by
  unfold finish? at read
  split at read
  · simp
  · rename_i c cs
    split at read
    · rename_i mark
      split at read
      · rename_i e exponent
        refine List.forall_mem_cons.2 ⟨?_, numeric_of_exponentOf? exponent⟩
        rcases Bool.or_eq_true_iff.1 mark with mark | mark
        · rw [beq_iff_eq.1 mark]; decide
        · rw [beq_iff_eq.1 mark]; decide
      · cases read
    · cases read

/-- A decimal has the letters of decimals. -/
theorem numeric_of_unsignedDecimal? {cs : List Char} (read : unsignedDecimal? cs = some x) :
    ∀ c ∈ cs, isNumeric c = true := by
  unfold unsignedDecimal? at read
  rcases cut : spanDigits cs with ⟨whole, rest⟩
  obtain ⟨rfl, digits⟩ := spanDigits_eq cut
  rw [cut] at read
  dsimp only at read
  refine List.forall_mem_append.2 ⟨numeric_of_digits digits, ?_⟩
  split at read
  · rename_i more
    refine List.forall_mem_cons.2 ⟨by decide, ?_⟩
    rcases behind : spanDigits more with ⟨fraction, rest⟩
    obtain ⟨rfl, digits⟩ := spanDigits_eq behind
    rw [behind] at read
    dsimp only at read
    split at read
    · cases read
    · exact List.forall_mem_append.2 ⟨numeric_of_digits digits, numeric_of_finish? read⟩
  · split at read
    · cases read
    · exact numeric_of_finish? read

/-! ## Hundredths -/

/-- A number of two decimal places from 0 to 1, as rounding to two places leaves it. -/
def IsHundredth (x : Float) : Prop :=
  ∃ k ≤ 100, x = Float.ofScientific k true 2

theorem value?_abs {r : ℝ} (hx : value? x = some (r : EReal)) :
    value? x.abs = some ((|r| : ℝ) : EReal) := by
  have unpacked : x.abs.toModel.unpack = UnpackedFloat.unpack Format.binary64
      (UnpackedFloat.pack Format.binary64 x.toModel.unpack.abs) := rfl
  unfold value?
  rw [unpacked]
  rcases finite_cases hx with ⟨s, form, rfl⟩ | ⟨s, m, e, pos, form, rfl⟩
  · rw [form, abs_zero]
    cases s <;> rfl
  · obtain ⟨canonical, bound⟩ := unpack_canonical form
    rw [form, UnpackedFloat.abs, unpack_pack_finite _ pos canonical bound, valueOf_finite, abs_mul,
      abs_of_pos (show (0 : ℝ) < 2 ^ e by positivity)]
    cases s <;> simp [Sign.apply]

/-- A number of hundredths as a double. -/
def hundredth (k : ℕ) : Float :=
  Float.ofScientific k true 2

/-- A number from 0 to 1 is rounded to the nearest hundredth, and of two to the greater one. -/
theorem roundPlaces_eq {r : ℝ} (hx : value? x = some (r : EReal)) (nonneg : 0 ≤ r) (small : r ≤ 1) :
    roundPlaces 2 x = hundredth ⌊r * 100 + 1 / 2⌋₊ := by
  obtain ⟨b, form, rfl⟩ := exists_ofFloat?_of_value? hx
  have limit : value? fixedLimit = some (((10 ^ 21 : ℤ) : ℝ) : EReal) :=
    toInt?_eq_some.1 (by decide +kernel)
  have inside : ¬x.abs ≥ fixedLimit := by
    intro large
    have := (le_iff limit (value?_abs hx)).1 large
    rw [EReal.coe_le_coe_iff, abs_of_nonneg nonneg] at this
    push_cast at this
    linarith
  have positive : ¬x < 0 := by
    intro negative
    have := (lt_iff hx value?_zero).1 negative
    rw [← EReal.coe_zero, EReal.coe_lt_coe_iff] at this
    linarith
  have hundred : (10 : ℝ) ^ 2 = 100 := by norm_num
  unfold roundPlaces
  rw [form]
  dsimp only
  rw [if_neg inside, if_neg positive, b.units_eq, abs_of_nonneg nonneg, hundred, hundredth]

/-- The nearest number of hundredths is one from 0 to 100. -/
theorem floor_hundredths_le {r : ℝ} (nonneg : 0 ≤ r) (small : r ≤ 1) :
    ⌊r * 100 + 1 / 2⌋₊ ≤ 100 := by
  rw [← Nat.lt_succ_iff, Nat.floor_lt (by positivity)]
  push_cast
  linarith

theorem isHundredth_roundPlaces {r : ℝ} (hx : value? x = some (r : EReal)) (nonneg : 0 ≤ r)
    (small : r ≤ 1) : IsHundredth (roundPlaces 2 x) :=
  ⟨_, floor_hundredths_le nonneg small, roundPlaces_eq hx nonneg small⟩

/-- Doubles of the unit interval are close to what they are rounded from. -/
theorem Faithful.close {z r : ℝ} (faithful : Faithful z r) (nonneg : 0 ≤ z) (small : z ≤ 1) :
    |z - r| ≤ 1 / 2 ^ 10 := by
  set n := ⌊z * 2 ^ 10⌋₊
  have below : (n : ℝ) ≤ z * 2 ^ 10 := Nat.floor_le (by positivity)
  have above : z * 2 ^ 10 < n + 1 := Nat.lt_floor_add_one _
  have grid : Grid (n / 2 ^ 10) := by
    have few : n ≤ 2 ^ 10 := Nat.floor_le_of_le (by push_cast; linarith)
    refine ⟨n, -10, ?_, by norm_num, ?_⟩
    · rw [Nat.abs_cast]
      exact_mod_cast few.trans (by norm_num)
    · rw [Int.cast_natCast, zpow_neg]
      norm_num [div_eq_mul_inv]
  refine (faithful.near _ grid).trans ?_
  rw [abs_le]
  constructor <;> linarith

/-- The value of a hundredth, which is almost exact. -/
theorem exists_value_hundredth {k : ℕ} (small : k ≤ 100) :
    ∃ r : ℝ, value? (hundredth k) = some (r : EReal) ∧ 0 ≤ r ∧ r ≤ 1 ∧
      |(k / 100 : ℝ) - r| ≤ 1 / 2 ^ 10 := by
  have rounds : Rounds (k / 100) (hundredth k) := rounds_hundredths k
  have unit : (k : ℝ) / 100 ≤ 1 := by
    rw [div_le_one (by norm_num)]
    exact_mod_cast small
  have := limit_pos
  obtain ⟨r, value, nonneg, most⟩ := rounds.between grid_zero grid_one (by positivity) unit
    (by linarith) (lt_limit (by norm_num))
  exact ⟨r, value, nonneg, most, (rounds.faithful value).close (by positivity) unit⟩

/-- What is close to a number of hundredths is rounded to it. -/
theorem roundPlaces_eq_of_close {r : ℝ} {k : ℕ} (hx : value? x = some (r : EReal)) (nonneg : 0 ≤ r)
    (small : r ≤ 1) (close : |(k / 100 : ℝ) - r| ≤ 2 / 2 ^ 10) :
    roundPlaces 2 x = hundredth k := by
  rw [roundPlaces_eq hx nonneg small]
  congr 1
  obtain ⟨low, high⟩ := abs_le.1 close
  rw [Nat.floor_eq_iff (by positivity)]
  constructor <;> linarith

theorem roundPlaces_hundredth {k : ℕ} (small : k ≤ 100) :
    roundPlaces 2 (hundredth k) = hundredth k := by
  obtain ⟨r, value, nonneg, most, close⟩ := exists_value_hundredth small
  exact roundPlaces_eq_of_close value nonneg most (close.trans (by norm_num))

/-- What a number of hundredths leaves of one, after rounding. -/
theorem roundPlaces_complement {k : ℕ} (small : k ≤ 100) :
    roundPlaces 2 (1 - hundredth k) = hundredth (100 - k) := by
  obtain ⟨r, value, nonneg, most, close⟩ := exists_value_hundredth small
  have unit : value? 1 = some (((1 : ℤ) : ℝ) : EReal) := toInt?_eq_some.1 (by decide +kernel)
  have rounds : Rounds (1 - r) (1 - hundredth k) := by
    have := rounds_sub unit value
    rwa [Int.cast_one] at this
  have := limit_pos
  obtain ⟨v, value, least, most⟩ := rounds.between grid_zero grid_one (by linarith) (by linarith)
    (by linarith) (lt_limit (by norm_num))
  have rounded := (rounds.faithful value).close (by linarith) (by linarith)
  refine roundPlaces_eq_of_close value least most ?_
  rw [abs_le] at close rounded ⊢
  push_cast [Nat.cast_sub small]
  constructor <;> linarith

theorem IsHundredth.complement (is : IsHundredth x) : IsHundredth (roundPlaces 2 (1 - x)) := by
  obtain ⟨k, small, rfl⟩ := is
  exact ⟨100 - k, Nat.sub_le .., roundPlaces_complement small⟩

/-- Hundredths are ordered as their numbers are. -/
theorem hundredth_lt {j k : ℕ} (less : j < k) (small : k ≤ 100) : hundredth j < hundredth k := by
  obtain ⟨v, hv, -, -, first⟩ := exists_value_hundredth (less.le.trans small)
  obtain ⟨w, hw, -, -, second⟩ := exists_value_hundredth small
  have step : (j : ℝ) + 1 ≤ k := by exact_mod_cast less
  rw [lt_iff hv hw, EReal.coe_lt_coe_iff]
  rw [abs_le] at first second
  linarith

theorem hundredth_le {j k : ℕ} (less : j ≤ k) (small : k ≤ 100) : hundredth j ≤ hundredth k := by
  rcases less.eq_or_lt with rfl | less
  · obtain ⟨v, hv, -⟩ := exists_value_hundredth small
    exact (le_iff hv hv).2 le_rfl
  · obtain ⟨a, b, hv, hw, le⟩ := exists_values_of_lt (hundredth_lt less small)
    exact (le_iff hv hw).2 le.le

/-! ## Texts -/

theorem hundredths_read : ∀ k ∈ List.range 101,
    unsignedDecimal? (literalText (Float.ofScientific k true 2)).toList
      = some (Float.ofScientific k true 2) := by
  decide +kernel

/-- A hundredth is written as the numeral that stands for it. -/
theorem IsHundredth.read (hundredth : IsHundredth x) :
    unsignedDecimal? (literalText x).toList = some x := by
  obtain ⟨k, small, rfl⟩ := hundredth
  exact hundredths_read k (List.mem_range.2 (Nat.lt_succ_of_le small))

theorem days_read : ∀ n ∈ List.range 253,
    exponentOf? (text (Float.ofNat n)).toList = some ((n : ℤ), []) := by
  decide +kernel

/-- A number of days, up to the trading days of a year, is written with its digits. -/
theorem exponentOf?_text {n : ℤ} (whole : toInt? x = some n) (positive : 1 ≤ n) (year : n ≤ 252) :
    exponentOf? (text x).toList = some (n, []) := by
  obtain ⟨m, rfl⟩ := Int.eq_ofNat_of_zero_le (by omega : 0 ≤ n)
  rw [eq_ofNat_of_toInt? whole (by omega) (by omega)]
  exact days_read m (List.mem_range.2 (by omega))

end AlphaFoundry.Number
