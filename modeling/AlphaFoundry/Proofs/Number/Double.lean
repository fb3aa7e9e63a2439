/-
# AlphaFoundry.Proofs.Number.Double -- the value of a double

`Binary.ofFloat?` reads a double off its bits.  The floating-point model behind `Float` unpacks the
same bits into a sign, a mantissa and an exponent.  Here both are given one value, an extended real
number: comparisons of doubles compare values, and what `Number` answers on the exact form is what
holds of the value.  The mantissa of a double is canonical, which is why comparing exponents first
is comparing values.
-/
import Mathlib
import AlphaFoundry.Number.Shortest

namespace AlphaFoundry.Number

set_option autoImplicit false

open Float.Model (UnpackedFloat Format)
open Float.Model.UnpackedFloat

theorem unpackMantissa_toNat (b : BitVec Format.binary64.numBits) :
    (unpackMantissa b).toNat = b.toNat % 2 ^ 52 := by
  simp [unpackMantissa]

theorem unpackExponent_toNat (b : BitVec Format.binary64.numBits) :
    (unpackExponent b).toNat = b.toNat / 2 ^ 52 % 2 ^ 11 := by
  simp [unpackExponent, Nat.shiftRight_eq_div_pow]

theorem unpackSign_toNat (b : BitVec Format.binary64.numBits) :
    (unpackSign b).toNat = b.toNat / 2 ^ 63 % 2 := by
  simp [unpackSign, Nat.shiftRight_eq_div_pow]

/-- What `Binary.ofFloat?` reads off the unpacked form. -/
def Binary.ofUnpacked? : UnpackedFloat → Option Binary
  | .finite s m e _ => some ⟨s == .negative, m, e, m == 2 ^ 52 && e != -1074⟩
  | .zero s => some ⟨s == .negative, 0, -1074, false⟩
  | _ => none

theorem sign_beq_negative (b : BitVec Format.binary64.numBits) :
    (Sign.ofBitVec (unpackSign b) == .negative) = (b.toNat / 2 ^ 63 == 1) := by
  have bound : b.toNat / 2 ^ 63 < 2 := by
    have := b.isLt
    simp only [Format.numBits, Format.binary64] at this
    omega
  have zero : unpackSign b = 0#1 ↔ b.toNat / 2 ^ 63 = 0 := by
    rw [← BitVec.toNat_inj, unpackSign_toNat]
    simp only [BitVec.toNat_ofNat]
    omega
  unfold Sign.ofBitVec
  by_cases positive : unpackSign b = 0#1
  · rw [if_pos positive, zero.1 positive]; rfl
  · have one : b.toNat / 2 ^ 63 = 1 := by have := mt zero.2 positive; omega
    rw [if_neg positive, one]; rfl

theorem implicitBit_toNat (m : BitVec 52) : (1#1 ++ m).toNat = 2 ^ 52 + m.toNat := by
  rw [BitVec.toNat_append, ← Nat.shiftLeft_add_eq_or_of_lt m.isLt]
  simp [Nat.shiftLeft_eq]

/-- The unpacked form by cases on the fields of the bits: all ones, all zeros, anything else. -/
theorem unpack_eq (b : BitVec Format.binary64.numBits) :
    UnpackedFloat.unpack Format.binary64 b =
      let s := Sign.ofBitVec (unpackSign b)
      let m : Nat := b.toNat % 2 ^ 52
      let e : Nat := b.toNat / 2 ^ 52 % 2 ^ 11
      if e = 2047 then if m = 0 then .infinity s else .notANumber
      else if e = 0 then if h : m = 0 then .zero s else .finite s m (-1074) (by omega)
      else .finite s (2 ^ 52 + m) ((e : Int) - 1075) (by omega) := by
  have exponent := unpackExponent_toNat b
  have mantissa := unpackMantissa_toNat b
  have allOnes : unpackExponent b = -1#_ ↔ b.toNat / 2 ^ 52 % 2 ^ 11 = 2047 := by
    rw [← BitVec.toNat_inj, exponent]; rfl
  have allZeros : unpackExponent b = 0#_ ↔ b.toNat / 2 ^ 52 % 2 ^ 11 = 0 := by
    rw [← BitVec.toNat_inj, exponent]; rfl
  have noMantissa : unpackMantissa b = 0#_ ↔ b.toNat % 2 ^ 52 = 0 := by
    rw [← BitVec.toNat_inj, mantissa]; rfl
  have bias : (Format.binary64.exponentBias : Int) = 1023 := rfl
  unfold UnpackedFloat.unpack
  by_cases ones : b.toNat / 2 ^ 52 % 2 ^ 11 = 2047
  · simp only [allOnes.2 ones, ones, noMantissa, if_true]
  have notOnes : ¬ unpackExponent b = -1#_ := mt allOnes.1 ones
  by_cases zeros : b.toNat / 2 ^ 52 % 2 ^ 11 = 0
  · rw [if_neg notOnes, if_pos (allZeros.2 zeros)]
    simp only [noMantissa, mantissa, exponent, zeros]
    split
    · rfl
    · simp [bias]
  · rw [if_neg notOnes, if_neg (mt allZeros.1 zeros)]
    simp only [ones, zeros, if_false, implicitBit_toNat, mantissa, exponent, bias]
    simp

theorem ofFloat?_eq (x : Float) :
    Binary.ofFloat? x = Binary.ofUnpacked? x.toModel.unpack := by
  unfold Binary.ofFloat? Float.Model.unpack
  set b : BitVec Format.binary64.numBits := x.toModel.toBits.toBitVec
  have bits : x.toBits.toNat = b.toNat := rfl
  have small : b.toNat % 2 ^ 52 < 2 ^ 52 := Nat.mod_lt _ (by decide)
  rw [unpack_eq]
  simp only [bits, Nat.pow_eq, beq_iff_eq, ← sign_beq_negative b]
  split
  · split <;> rfl
  · split
    · split
      · rename_i zero
        simp only [Binary.ofUnpacked?, zero]
      · simp [Binary.ofUnpacked?]
    · rename_i notZero
      simp only [Binary.ofUnpacked?, Option.some.injEq, Binary.mk.injEq, true_and]
      generalize b.toNat % 2 ^ 52 = m
      generalize b.toNat / 2 ^ 52 % 2 ^ 11 = e at notZero
      grind

/-! ## Canonical forms -/

/-- The mantissa and the exponent that rounding leaves alone.  An exponent above 971 is one of a
double that is too large to be packed. -/
structure Canonical (m : Nat) (e : Int) : Prop where
  small : m < 2 ^ 53
  least : -1074 ≤ e
  full : 2 ^ 52 ≤ m ∨ e = -1074

theorem unpack_canonical {x : Float} {s : Sign} {m : Nat} {e : Int} {pos : 0 < m}
    (form : x.toModel.unpack = .finite s m e pos) : Canonical m e ∧ e ≤ 971 := by
  unfold Float.Model.unpack at form
  set b : BitVec Format.binary64.numBits := x.toModel.toBits.toBitVec
  have small : b.toNat % 2 ^ 52 < 2 ^ 52 := Nat.mod_lt _ (by decide)
  have short : b.toNat / 2 ^ 52 % 2 ^ 11 < 2 ^ 11 := Nat.mod_lt _ (by decide)
  rw [unpack_eq] at form
  simp only at form
  split at form
  · split at form <;> cases form
  · split at form
    · split at form
      · cases form
      · obtain ⟨-, rfl, rfl⟩ := UnpackedFloat.finite.inj form
        exact ⟨⟨by omega, le_rfl, .inr rfl⟩, by omega⟩
    · obtain ⟨-, rfl, rfl⟩ := UnpackedFloat.finite.inj form
      exact ⟨⟨by omega, by omega, .inl (by omega)⟩, by omega⟩

/-- A larger exponent makes a larger canonical number, whatever the mantissas are. -/
theorem Canonical.lt_of_exponent_lt {m n : Nat} {e f : Int} (hm : Canonical m e)
    (hn : Canonical n f) (less : e < f) : (m : ℝ) * 2 ^ e < (n : ℝ) * 2 ^ f := by
  have full : 2 ^ 52 ≤ n := hn.full.resolve_right (by have := hm.least; omega)
  have step : (2 : ℝ) ^ (e + 1) ≤ 2 ^ f := zpow_le_zpow_right₀ (by norm_num) (by omega)
  have pos : (0 : ℝ) < 2 ^ e := by positivity
  have below : (m : ℝ) < 2 ^ 53 := by exact_mod_cast hm.small
  have above : (2 : ℝ) ^ 52 ≤ n := by exact_mod_cast full
  rw [zpow_add_one₀ (by norm_num)] at step
  calc (m : ℝ) * 2 ^ e < 2 ^ 53 * 2 ^ e := by gcongr
    _ = 2 ^ 52 * (2 ^ e * 2) := by ring
    _ ≤ n * 2 ^ f := by gcongr

theorem Canonical.cmp_eq {m n : Nat} {e f : Int} (hm : Canonical m e) (hn : Canonical n f) :
    (compare e f).then (compare m n) = cmp ((m : ℝ) * 2 ^ e) ((n : ℝ) * 2 ^ f) := by
  rcases lt_trichotomy e f with less | rfl | greater
  · rw [compare_lt_iff_lt.2 less, (cmp_eq_lt_iff _ _).2 (hm.lt_of_exponent_lt hn less)]
    rfl
  · have pos : (0 : ℝ) < 2 ^ e := by positivity
    rw [compare_eq_iff_eq.2 rfl, cmp_mul_pos_right pos]
    rcases lt_trichotomy m n with h | rfl | h
    · rw [compare_lt_iff_lt.2 h, (cmp_eq_lt_iff _ _).2 (by exact_mod_cast h)]; rfl
    · simp
    · rw [compare_gt_iff_gt.2 h, (cmp_eq_gt_iff _ _).2 (by exact_mod_cast h)]; rfl
  · rw [compare_gt_iff_gt.2 greater, (cmp_eq_gt_iff _ _).2 (hn.lt_of_exponent_lt hm greater)]
    rfl

/-! ## Values -/

/-- The real number of an unpacked double, or an infinity; nothing for NaN. -/
noncomputable def valueOf : UnpackedFloat → Option EReal
  | .notANumber => none
  | .infinity .positive => some ⊤
  | .infinity .negative => some ⊥
  | .zero _ => some 0
  | .finite s m e _ => some (((s.apply m : ℤ) * (2 : ℝ) ^ e : ℝ) : EReal)

noncomputable def value? (x : Float) : Option EReal :=
  valueOf x.toModel.unpack

/-- Finite forms are canonical, as those of doubles are. -/
def Proper : UnpackedFloat → Prop
  | .finite _ m e _ => Canonical m e
  | _ => True

theorem proper_unpack (x : Float) : Proper x.toModel.unpack := by
  cases form : x.toModel.unpack with
  | finite s m e pos => exact (unpack_canonical form).1
  | _ => trivial

theorem valueOf_finite (s : Sign) {m : Nat} {e : Int} (pos : 0 < m) :
    valueOf (.finite s m e pos) = some ((((s.apply m : ℤ) : ℝ) * (2 : ℝ) ^ e : ℝ) : EReal) := rfl

theorem scaled_pos {m : Nat} (e : Int) (pos : 0 < m) : (0 : ℝ) < m * 2 ^ e := by
  have : (0 : ℝ) < m := by exact_mod_cast pos
  positivity

theorem cmp_coe (a b : ℝ) : cmp (a : EReal) (b : EReal) = cmp a b :=
  EReal.coe_strictMono.cmp_map_eq a b

/-- Comparing canonical forms is comparing the numbers that they stand for. -/
theorem compare_eq {u v : UnpackedFloat} {a b : EReal} (hu : Proper u) (hv : Proper v)
    (ha : valueOf u = some a) (hb : valueOf v = some b) : u.compare v = some (cmp a b) := by
  have gt {x y : EReal} (h : y < x) : some Ordering.gt = some (cmp x y) := by
    rw [(cmp_eq_gt_iff x y).2 h]
  have lt {x y : EReal} (h : x < y) : some Ordering.lt = some (cmp x y) := by
    rw [(cmp_eq_lt_iff x y).2 h]
  have eq (x : EReal) : some Ordering.eq = some (cmp x x) := by rw [cmp_self_eq_eq]
  have pos {n : Nat} (f : Int) (h : 0 < n) : (0 : EReal) < ((n * (2 : ℝ) ^ f : ℝ) : EReal) :=
    EReal.coe_pos.2 (scaled_pos f h)
  have neg {n : Nat} (f : Int) (h : 0 < n) : ((-n * (2 : ℝ) ^ f : ℝ) : EReal) < 0 := by
    rw [neg_mul]; exact EReal.coe_neg'.2 (neg_neg_of_pos (scaled_pos f h))
  rcases u with (_ | _) | _ | s | ⟨_ | _, m, e, mpos⟩ <;>
    rcases v with (_ | _) | _ | t | ⟨_ | _, n, f, npos⟩ <;>
    simp only [valueOf, reduceCtorEq, Option.some.injEq, Sign.apply, Int.cast_neg,
      Int.cast_natCast] at ha hb <;>
    subst ha hb <;> simp only [UnpackedFloat.compare]
  case finite.positive.finite.positive => rw [cmp_coe, Canonical.cmp_eq hu hv]
  case finite.negative.finite.negative =>
      rw [cmp_coe, Canonical.cmp_eq hu hv, cmp_swap, neg_mul, neg_mul,
        StrictAnti.cmp_map_eq (fun _ _ => neg_lt_neg)]
  case finite.negative.finite.positive => exact lt ((neg e mpos).trans (pos f npos))
  case finite.positive.finite.negative => exact gt ((neg f npos).trans (pos e mpos))
  case finite.negative.zero => exact lt (neg e mpos)
  case finite.positive.zero => exact gt (pos e mpos)
  case zero.finite.negative => exact gt (neg f npos)
  case zero.finite.positive => exact lt (pos f npos)
  all_goals
    first
    | exact eq _
    | exact lt bot_lt_top
    | exact gt bot_lt_top
    | exact lt (EReal.bot_lt_coe _)
    | exact gt (EReal.bot_lt_coe _)
    | exact lt (EReal.coe_lt_top _)
    | exact gt (EReal.coe_lt_top _)

/-! ## Packing -/

theorem unpackSign_pack (s : Sign) (e : BitVec 11) (m : BitVec 52) :
    Sign.ofBitVec (unpackSign (packComponents Format.binary64 s e m)) = s := by
  rw [unpackSign_packComponents]
  cases s <;> rfl

/-- Packing loses nothing of a canonical form that is not too large. -/
theorem unpack_pack_finite (s : Sign) {m : Nat} {e : Int} (pos : 0 < m) (canonical : Canonical m e)
    (bound : e ≤ 971) :
    UnpackedFloat.unpack Format.binary64 (UnpackedFloat.pack Format.binary64 (.finite s m e pos))
      = .finite s m e pos := by
  obtain ⟨small, least, full⟩ := canonical
  have bias : (Format.binary64.exponentBias : Int) = 1023 := rfl
  have bits : Format.binary64.mantissaBits = 53 := rfl
  have notInfinite : ¬ 2 ^ 11 ≤ (e + (1023 : Int) + (52 : Nat)).toNat + 1 := by omega
  have normal : m.log2 + 1 = 53 ↔ 2 ^ 52 ≤ m := by
    have := Nat.log2_eq_iff (n := m) (k := 52) (by omega)
    omega
  simp only [UnpackedFloat.pack, bias, bits]
  rw [if_neg notInfinite]
  by_cases leading : 2 ^ 52 ≤ m
  · rw [if_pos (normal.2 leading)]
    have notOnes : BitVec.ofNat 11 (e + (1023 : Int) + (52 : Nat)).toNat ≠ -1#_ := by
      rw [ne_eq, ← BitVec.toNat_inj, BitVec.toNat_ofNat]
      simp only [BitVec.neg_one_eq_allOnes, BitVec.toNat_allOnes]
      omega
    have notZeros : BitVec.ofNat 11 (e + (1023 : Int) + (52 : Nat)).toNat ≠ 0#_ := by
      rw [ne_eq, ← BitVec.toNat_inj, BitVec.toNat_ofNat, BitVec.toNat_ofNat]
      omega
    simp only [UnpackedFloat.unpack, unpackExponent_packComponents, unpackMantissa_packComponents,
      unpackSign_pack, if_neg notOnes, if_neg notZeros, implicitBit_toNat, BitVec.toNat_ofNat, bias]
    congr 1 <;> omega
  · have least : e = -1074 := full.resolve_left leading
    subst least
    rw [if_neg (mt normal.1 leading)]
    have some : BitVec.ofNat 52 m ≠ 0#_ := by
      rw [ne_eq, ← BitVec.toNat_inj, BitVec.toNat_ofNat, BitVec.toNat_ofNat]
      omega
    have notOnes : 0#11 ≠ -1#_ := by decide
    simp only [UnpackedFloat.unpack, unpackExponent_packComponents, unpackMantissa_packComponents,
      unpackSign_pack, if_neg notOnes, if_true, dif_neg some, BitVec.toNat_ofNat, bias]
    congr 1
    omega

/-- The least power of two that is too large for a double. -/
noncomputable def limit : ℝ :=
  2 ^ (1024 : ℤ)

theorem limit_pos : 0 < limit := by
  unfold limit
  positivity

/-- A value as the doubles hold it: an infinity from the limit on. -/
noncomputable def clip (a : EReal) : EReal :=
  if (limit : EReal) ≤ a then ⊤ else if a ≤ ((-limit : ℝ) : EReal) then ⊥ else a

theorem clip_coe_of_lt {r : ℝ} (bound : |r| < limit) : clip (r : EReal) = r := by
  obtain ⟨low, high⟩ := abs_lt.1 bound
  unfold clip
  rw [if_neg (by rw [EReal.coe_le_coe_iff]; linarith),
    if_neg (by rw [EReal.coe_le_coe_iff]; linarith)]

theorem clip_of_limit_le {r : ℝ} (large : limit ≤ r) : clip (r : EReal) = ⊤ :=
  if_pos (EReal.coe_le_coe_iff.2 large)

theorem clip_of_le_neg_limit {r : ℝ} (small : r ≤ -limit) : clip (r : EReal) = ⊥ := by
  have := limit_pos
  unfold clip
  rw [if_neg (by rw [EReal.coe_le_coe_iff]; linarith), if_pos (EReal.coe_le_coe_iff.2 small)]

theorem clip_top : clip ⊤ = ⊤ := if_pos le_top

theorem clip_bot : clip ⊥ = ⊥ := by
  unfold clip
  rw [if_neg (EReal.bot_lt_coe _).not_ge, if_pos bot_le]

theorem clip_neg (r : ℝ) : clip ((-r : ℝ) : EReal) = -clip (r : EReal) := by
  rcases le_or_gt limit r with large | less
  · rw [clip_of_limit_le large, clip_of_le_neg_limit (neg_le_neg large), EReal.neg_top]
  · rcases le_or_gt r (-limit) with small | greater
    · rw [clip_of_le_neg_limit small, clip_of_limit_le (le_neg.1 small), EReal.neg_bot]
    · have bound : |r| < limit := abs_lt.2 ⟨greater, less⟩
      rw [clip_coe_of_lt bound, clip_coe_of_lt (by rwa [abs_neg]), EReal.coe_neg]

theorem Canonical.scaled_lt_limit {m : Nat} {e : Int} (canonical : Canonical m e)
    (bound : e ≤ 971) :
    (m : ℝ) * 2 ^ e < limit := by
  have less : (m : ℝ) < 2 ^ (53 : ℤ) := by exact_mod_cast canonical.small
  have power : (2 : ℝ) ^ e ≤ 2 ^ (971 : ℤ) := zpow_le_zpow_right₀ (by norm_num) bound
  have pos : (0 : ℝ) < 2 ^ e := by positivity
  calc (m : ℝ) * 2 ^ e < 2 ^ (53 : ℤ) * 2 ^ e := by gcongr
    _ ≤ 2 ^ (53 : ℤ) * 2 ^ (971 : ℤ) := by gcongr
    _ = limit := by rw [← zpow_add₀ (by norm_num)]; rfl

theorem Canonical.limit_le_scaled {m : Nat} {e : Int} (canonical : Canonical m e)
    (large : 971 < e) :
    limit ≤ (m : ℝ) * 2 ^ e := by
  have full : 2 ^ 52 ≤ m := canonical.full.resolve_right (by omega)
  have above : (2 : ℝ) ^ (52 : ℤ) ≤ m := by exact_mod_cast full
  have power : (2 : ℝ) ^ (972 : ℤ) ≤ 2 ^ e := zpow_le_zpow_right₀ (by norm_num) (by omega)
  calc limit = 2 ^ (52 : ℤ) * 2 ^ (972 : ℤ) := by rw [← zpow_add₀ (by norm_num)]; rfl
    _ ≤ m * 2 ^ e := by gcongr

/-- Packing keeps the value, except that it has no room for large ones. -/
theorem valueOf_unpack_pack {u : UnpackedFloat} (proper : Proper u) :
    valueOf (UnpackedFloat.unpack Format.binary64 (UnpackedFloat.pack Format.binary64 u))
      = (valueOf u).map clip := by
  cases u with
  | notANumber => rfl
  | infinity s =>
      cases s with
      | positive => exact congrArg some clip_top.symm
      | negative => exact congrArg some clip_bot.symm
  | zero s =>
      have kept : clip 0 = 0 := clip_coe_of_lt (r := 0) (by simpa using limit_pos)
      cases s <;> exact congrArg some kept.symm
  | finite s m e pos =>
      have canonical : Canonical m e := proper
      have sign : |(((s.apply m : ℤ) : ℝ))| = m := by cases s <;> simp [Sign.apply]
      rw [valueOf_finite, Option.map_some]
      by_cases bound : e ≤ 971
      · rw [unpack_pack_finite s pos canonical bound, valueOf_finite, clip_coe_of_lt]
        rw [abs_mul, sign, abs_of_pos (by positivity)]
        exact canonical.scaled_lt_limit bound
      · have large := canonical.limit_le_scaled (not_le.1 bound)
        have bias : (Format.binary64.exponentBias : Int) = 1023 := rfl
        have infinite : 2 ^ 11 ≤ (e + (1023 : Int) + (52 : Nat)).toNat + 1 := by omega
        have packed : UnpackedFloat.pack Format.binary64 (.finite s m e pos)
            = packedInfinity Format.binary64 s := by
          simp only [UnpackedFloat.pack, bias]
          rw [if_pos infinite]
        rw [packed]
        cases s with
        | positive =>
            simp only [Sign.apply, Int.cast_natCast]
            rw [clip_of_limit_le large]
            rfl
        | negative =>
            simp only [Sign.apply, Int.cast_neg, Int.cast_natCast, neg_mul]
            rw [clip_of_le_neg_limit (neg_le_neg large)]
            rfl

theorem value?_neg {x : Float} {a : EReal} (hx : value? x = some a) : value? (-x) = some (-a) := by
  have unpacked : (-x).toModel.unpack = UnpackedFloat.unpack Format.binary64
      (UnpackedFloat.pack Format.binary64 x.toModel.unpack.neg) := rfl
  unfold value? at *
  rw [unpacked]
  cases form : x.toModel.unpack with
  | notANumber => rw [form] at hx; cases hx
  | infinity s =>
      rw [form] at hx
      cases s <;> (obtain rfl := Option.some.inj hx; simp; rfl)
  | zero s =>
      rw [form] at hx
      cases s <;> (obtain rfl := Option.some.inj hx; simp; rfl)
  | finite s m e pos =>
      rw [form] at hx
      obtain ⟨canonical, bound⟩ := unpack_canonical form
      obtain rfl := Option.some.inj hx
      rw [UnpackedFloat.neg, unpack_pack_finite _ pos canonical bound, valueOf_finite]
      cases s <;> simp [Sign.apply]

/-! ## Comparisons of doubles -/

section Comparison

variable {x y : Float} {a b : EReal} (hx : value? x = some a) (hy : value? y = some b)

include hx hy

theorem lt_iff : x < y ↔ a < b := by
  have ordered := compare_eq (proper_unpack x) (proper_unpack y) hx hy
  have unfolded : x < y ↔ (x.toModel.unpack.compare y.toModel.unpack == some .lt) = true :=
    decide_eq_true_iff
  rw [unfolded, ordered, beq_iff_eq, Option.some.injEq, cmp_eq_lt_iff]

theorem le_iff : x ≤ y ↔ a ≤ b := by
  have ordered := compare_eq (proper_unpack x) (proper_unpack y) hx hy
  have unfolded : x ≤ y ↔ (x.toModel.unpack.compare y.toModel.unpack).any (·.isLE) = true :=
    decide_eq_true_iff
  rw [unfolded, ordered, Option.any_some, ← not_lt, ← cmp_eq_gt_iff]
  cases cmp a b <;> simp

theorem beq_iff : (x == y) = true ↔ a = b := by
  have ordered := compare_eq (proper_unpack x) (proper_unpack y) hx hy
  have unfolded : (x == y) = (x.toModel.unpack.compare y.toModel.unpack == some .eq) := rfl
  rw [unfolded, ordered, beq_iff_eq, Option.some.injEq, cmp_eq_eq_iff]

end Comparison

/-- Only numbers are ordered. -/
theorem exists_value_of_compare {u v : UnpackedFloat} {o : Ordering}
    (ordered : u.compare v = some o) : (∃ a, valueOf u = some a) ∧ ∃ b, valueOf v = some b := by
  have number {w : UnpackedFloat} (num : w ≠ .notANumber) : ∃ a, valueOf w = some a := by
    rcases w with (_ | _) | _ | s | ⟨s, m, e, pos⟩
    · exact ⟨⊥, rfl⟩
    · exact ⟨⊤, rfl⟩
    · exact absurd rfl num
    · exact ⟨0, rfl⟩
    · exact ⟨_, valueOf_finite s pos⟩
  refine ⟨number ?_, number ?_⟩
  · rintro rfl
    cases ordered
  · rintro rfl
    cases u with
    | infinity s => cases s <;> cases ordered
    | finite s m e pos => cases s <;> cases ordered
    | _ => cases ordered

theorem exists_values_of_lt {x y : Float} (less : x < y) :
    ∃ a b, value? x = some a ∧ value? y = some b ∧ a < b := by
  have unfolded : (x.toModel.unpack.compare y.toModel.unpack == some .lt) = true :=
    decide_eq_true_iff.1 less
  obtain ⟨⟨a, hx⟩, b, hy⟩ := exists_value_of_compare (beq_iff_eq.1 unfolded)
  exact ⟨a, b, hx, hy, (lt_iff hx hy).1 less⟩

theorem exists_values_of_le {x y : Float} (less : x ≤ y) :
    ∃ a b, value? x = some a ∧ value? y = some b ∧ a ≤ b := by
  have unfolded : (x.toModel.unpack.compare y.toModel.unpack).any (·.isLE) = true :=
    decide_eq_true_iff.1 less
  obtain ⟨o, ordered, -⟩ := (Option.any_eq_true _ _).1 unfolded
  obtain ⟨⟨a, hx⟩, b, hy⟩ := exists_value_of_compare ordered
  exact ⟨a, b, hx, hy, (le_iff hx hy).1 less⟩

theorem isNaN_of_value? {x : Float} {a : EReal} (hx : value? x = some a) : x.isNaN = false := by
  change x.toModel.unpack.isNaN = false
  change valueOf x.toModel.unpack = some a at hx
  cases form : x.toModel.unpack with
  | notANumber => rw [form] at hx; cases hx
  | _ => rfl

theorem isFinite_iff {x : Float} : x.isFinite = true ↔ ∃ r : ℝ, value? x = some (r : EReal) := by
  change x.toModel.unpack.isFinite = true ↔ ∃ r : ℝ, valueOf x.toModel.unpack = some (r : EReal)
  rcases x.toModel.unpack with (_ | _) | _ | s | ⟨s, m, e, pos⟩
  · simp [UnpackedFloat.isFinite, valueOf]
  · simp [UnpackedFloat.isFinite, valueOf]
  · simp [UnpackedFloat.isFinite, valueOf]
  · exact iff_of_true rfl ⟨0, rfl⟩
  · exact iff_of_true rfl ⟨_, rfl⟩

/-- The smaller and the larger of two doubles have the smaller and the larger value. -/
theorem value?_lesser {x y : Float} {a b : EReal} (hx : value? x = some a)
    (hy : value? y = some b) :
    value? (lesser x y) = some (min a b) := by
  unfold lesser
  simp only [isNaN_of_value? hx, isNaN_of_value? hy, Bool.or_self, Bool.false_eq_true, if_false,
    lt_iff hx hy, lt_iff hy hx]
  split
  · rename_i h; rw [hx, min_eq_left h.le]
  · split
    · rename_i h; rw [hy, min_eq_right h.le]
    · have same : a = b := by order
      split
      · rw [hx, same, min_self]
      · rw [hy, same, min_self]

theorem value?_greater {x y : Float} {a b : EReal} (hx : value? x = some a)
    (hy : value? y = some b) :
    value? (greater x y) = some (max a b) := by
  unfold greater
  simp only [isNaN_of_value? hx, isNaN_of_value? hy, Bool.or_self, Bool.false_eq_true, if_false,
    lt_iff hx hy, lt_iff hy hx]
  split
  · rename_i h; rw [hy, max_eq_right h.le]
  · split
    · rename_i h; rw [hx, max_eq_left h.le]
    · have same : a = b := by order
      split
      · rw [hy, same, max_self]
      · rw [hx, same, max_self]

/-! ## The exact form read off the bits -/

namespace Binary

noncomputable def value (b : Binary) : ℝ :=
  b.signed * (2 : ℝ) ^ b.exponent

/-- The value without its sign. -/
noncomputable def size (b : Binary) : ℝ :=
  b.mantissa * 2 ^ b.exponent

/-- Halfway from the size to the neighbour below. -/
noncomputable def lowest (b : Binary) : ℝ :=
  (if b.narrowBelow then 4 * b.mantissa - 1 else 4 * b.mantissa - 2 : ℕ) * 2 ^ (b.exponent - 2)

/-- Halfway from the size to the neighbour above. -/
noncomputable def highest (b : Binary) : ℝ :=
  (4 * b.mantissa + 2 : ℕ) * 2 ^ (b.exponent - 2)

theorem value_eq_div (b : Binary) : b.value = b.numerator / b.denominator := by
  unfold value numerator denominator
  push_cast
  simp only [Nat.pow_eq]
  push_cast
  rcases le_total 0 b.exponent with up | down
  · obtain ⟨n, hn⟩ := Int.eq_ofNat_of_zero_le up
    simp [hn]
  · obtain ⟨n, hn⟩ := Int.exists_eq_neg_ofNat down
    simp [hn]
    rfl

theorem denominator_pos (b : Binary) : 0 < b.denominator :=
  Nat.two_pow_pos _

theorem floor_eq (b : Binary) : b.floor = ⌊b.value⌋ := by
  rw [value_eq_div, Int.floor_div_natCast, Int.floor_intCast]
  rfl

theorem isWhole_iff (b : Binary) : b.isWhole = true ↔ b.value = b.floor := by
  have nonzero : (b.denominator : ℝ) ≠ 0 := by exact_mod_cast b.denominator_pos.ne'
  unfold isWhole floor
  rw [beq_iff_eq, value_eq_div, div_eq_iff nonzero, ← Int.dvd_iff_emod_eq_zero]
  constructor
  · intro divides
    have := Int.ediv_mul_cancel divides
    exact_mod_cast this.symm
  · intro equal
    have equal : b.numerator = b.numerator / b.denominator * b.denominator := by exact_mod_cast equal
    rw [equal]
    exact dvd_mul_left _ _

end Binary

theorem value?_of_ofFloat? {x : Float} {b : Binary} (form : Binary.ofFloat? x = some b) :
    value? x = some (b.value : EReal) := by
  rw [ofFloat?_eq] at form
  unfold value?
  cases unpacked : x.toModel.unpack with
  | notANumber => rw [unpacked] at form; cases form
  | infinity s => rw [unpacked] at form; cases form
  | zero s =>
      rw [unpacked] at form
      obtain rfl := Option.some.inj form
      simp [valueOf, Binary.value, Binary.signed]
  | finite s m e pos =>
      rw [unpacked] at form
      obtain rfl := Option.some.inj form
      rw [valueOf_finite]
      cases s <;> simp [Binary.value, Binary.signed, Sign.apply]

theorem exists_ofFloat?_of_value? {x : Float} {r : ℝ} (finite : value? x = some (r : EReal)) :
    ∃ b, Binary.ofFloat? x = some b ∧ b.value = r := by
  have exists_form : ∃ b, Binary.ofFloat? x = some b := by
    rw [ofFloat?_eq]
    unfold value? at finite
    cases unpacked : x.toModel.unpack with
    | notANumber => rw [unpacked] at finite; cases finite
    | infinity s => rw [unpacked] at finite; cases s <;> simp [valueOf] at finite
    | zero s => exact ⟨_, rfl⟩
    | finite s m e pos => exact ⟨_, rfl⟩
  obtain ⟨b, form⟩ := exists_form
  refine ⟨b, form, ?_⟩
  have := (value?_of_ofFloat? form).symm.trans finite
  exact EReal.coe_injective (Option.some.inj this)

theorem value?_of_ofFloat?_eq_none {x : Float} (form : Binary.ofFloat? x = none) :
    value? x = none ∨ value? x = some ⊤ ∨ value? x = some ⊥ := by
  rw [ofFloat?_eq] at form
  unfold value?
  cases unpacked : x.toModel.unpack with
  | notANumber => exact .inl rfl
  | infinity s => cases s <;> simp [valueOf]
  | zero s => rw [unpacked] at form; cases form
  | finite s m e pos => rw [unpacked] at form; cases form

/-- The whole number that a double is, if it is one, is its value. -/
theorem toInt?_eq_some {x : Float} {n : Int} :
    toInt? x = some n ↔ value? x = some (((n : ℝ)) : EReal) := by
  unfold toInt?
  rw [Option.bind_eq_some_iff]
  constructor
  · rintro ⟨b, form, whole⟩
    rw [Option.ite_none_right_eq_some, Option.some.injEq, Binary.isWhole_iff] at whole
    rw [value?_of_ofFloat? form, whole.1, whole.2]
  · intro value
    obtain ⟨b, form, equal⟩ := exists_ofFloat?_of_value? value
    have floored : b.floor = n := by rw [Binary.floor_eq, equal, Int.floor_intCast]
    refine ⟨b, form, ?_⟩
    rw [if_pos (b.isWhole_iff.2 (by rw [equal, floored])), floored]

theorem value?_zero : value? 0 = some 0 := by
  have whole : toInt? 0 = some 0 := by decide +kernel
  simpa using toInt?_eq_some.1 whole

theorem not_lt_of_value?_eq_none {x y : Float} (nan : value? x = none) : ¬x < y := by
  intro less
  obtain ⟨a, -, value, -, -⟩ := exists_values_of_lt less
  rw [nan] at value
  cases value

/-- A count is above a bound that is a number and less than the count. -/
theorem countAbove_iff {n : Nat} {x : Float} :
    countAbove n x = true ↔ ∃ a, value? x = some a ∧ a < ((n : ℝ) : EReal) := by
  unfold countAbove
  cases form : Binary.ofFloat? x with
  | some b =>
      have pos : (0 : ℝ) < b.denominator := by exact_mod_cast b.denominator_pos
      have less : b.value < n ↔ b.numerator < (n : Int) * b.denominator := by
        rw [b.value_eq_div, div_lt_iff₀ pos]
        exact_mod_cast Iff.rfl
      simp only [decide_eq_true_eq, value?_of_ofFloat? form, Option.some.injEq,
        exists_eq_left', EReal.coe_lt_coe_iff, less]
  | none =>
      simp only [decide_eq_true_eq]
      rcases value?_of_ofFloat?_eq_none form with nan | top | bottom
      · simp [nan, not_lt_of_value?_eq_none nan]
      · simp [top, lt_iff top value?_zero]
      · have below : (⊥ : EReal) < ((n : ℝ) : EReal) := EReal.bot_lt_coe _
        simpa [bottom, lt_iff bottom value?_zero] using below

/-- A count is at most a bound that is a number and at least the count. -/
theorem countAtMost_iff {n : Nat} {x : Float} :
    countAtMost n x = true ↔ ∃ a, value? x = some a ∧ ((n : ℝ) : EReal) ≤ a := by
  unfold countAtMost
  cases form : Binary.ofFloat? x with
  | some b =>
      have pos : (0 : ℝ) < b.denominator := by exact_mod_cast b.denominator_pos
      have most : (n : ℝ) ≤ b.value ↔ (n : Int) * b.denominator ≤ b.numerator := by
        rw [b.value_eq_div, le_div_iff₀ pos]
        exact_mod_cast Iff.rfl
      simp only [decide_eq_true_eq, value?_of_ofFloat? form, Option.some.injEq,
        exists_eq_left', EReal.coe_le_coe_iff, most]
  | none =>
      simp only [decide_eq_true_eq, GT.gt]
      rcases value?_of_ofFloat?_eq_none form with nan | top | bottom
      · have : ¬(0 : Float) < x := by
          intro less
          obtain ⟨-, a, -, value, -⟩ := exists_values_of_lt less
          rw [nan] at value
          cases value
        simp [nan, this]
      · simp [top, lt_iff value?_zero top]
      · have above : ¬((n : ℝ) : EReal) ≤ ⊥ := not_le.2 (EReal.bot_lt_coe _)
        simpa [bottom, lt_iff value?_zero bottom] using above

end AlphaFoundry.Number
