/-
# AlphaFoundry.Proofs.Optimization.Idle -- when there is nothing to change

A mutation is idle on a formula if nothing in it can be changed in this way: no field or operator
has an alternative, no window another value in its range.  Fields and operators are drawn from those
that have an alternative, so the swaps return nothing exactly where they are idle, whatever is
drawn.  A window is drawn first and moved afterwards; a move out of the range ends at the bound, and
is no move for a window that stands there.  From the inside of a range every move leads elsewhere.
-/
import Mathlib
import AlphaFoundry.Proofs.Optimization.Traps

namespace AlphaFoundry

set_option autoImplicit false

/-! ## Sums that move -/

namespace Number

variable {x y : Float}

/-- A double that is not tiny has all the digits of its precision. -/
theorem exists_full {r : ℝ} (value : value? x = some (r : EReal)) (large : 1 ≤ |r|) :
    ∃ k e : ℤ, 2 ^ 52 ≤ |k| ∧ |k| < 2 ^ 53 ∧ -1074 ≤ e ∧ r = k * 2 ^ e := by
  rcases finite_cases value with ⟨s, -, rfl⟩ | ⟨s, m, e, pos, form, rfl⟩
  · rw [abs_zero] at large
    exact absurd large (by norm_num)
  · obtain ⟨canonical, -⟩ := unpack_canonical form
    have size : |(s.apply m : ℤ)| = m := by
      cases s <;> simp [Float.Model.UnpackedFloat.Sign.apply]
    have full : 2 ^ 52 ≤ m := by
      refine canonical.full.resolve_right ?_
      rintro rfl
      have tiny : (2 : ℝ) ^ 53 * 2 ^ (-1074 : ℤ) < 1 := by
        rw [← zpow_natCast, ← zpow_add₀ (by norm_num)]
        exact zpow_lt_one_of_neg₀ (by norm_num) (by norm_num)
      have small : (m : ℝ) < 2 ^ 53 := by exact_mod_cast canonical.small
      have size : |((s.apply m : ℤ) : ℝ)| = m := by exact_mod_cast size
      rw [abs_mul, size, abs_of_pos (by positivity)] at large
      have : (m : ℝ) * 2 ^ (-1074 : ℤ) ≤ 2 ^ 53 * 2 ^ (-1074 : ℤ) := by gcongr
      linarith
    refine ⟨s.apply m, e, ?_, ?_, canonical.least, rfl⟩ <;> rw [size]
    · exact_mod_cast full
    · exact_mod_cast canonical.small

/-- A neighbour in the direction of what is added is nearer to the sum. -/
theorem Faithful.ne_of_full {k e : ℤ} {d v : ℝ} (full : 2 ^ 52 ≤ |k|) (small : |k| < 2 ^ 53)
    (least : -1074 ≤ e) (far : |(k : ℝ) * 2 ^ e| ≤ 8 * |d|) (faithful : Faithful (k * 2 ^ e + d) v) :
    v ≠ k * 2 ^ e := by
  rintro rfl
  have unit : (0 : ℝ) < 2 ^ e := by positivity
  have full : (2 : ℝ) ^ 52 ≤ |(k : ℝ)| := by exact_mod_cast full
  have step : (2 : ℝ) ^ e ≤ |d| := by
    rw [abs_mul, abs_of_pos unit] at far
    nlinarith
  have neighbour (j : ℤ) (one : |j| = 1) : Grid (k * 2 ^ e + j * 2 ^ e) := by
    refine ⟨k + j, e, ?_, least, by push_cast; ring⟩
    have := abs_add_le k j
    omega
  rcases lt_or_ge d 0 with negative | nonneg
  · have near := faithful.near _ (neighbour (-1) rfl)
    rw [abs_of_neg negative] at step
    push_cast at near
    rw [add_sub_cancel_left, add_sub_add_left_eq_sub, abs_of_neg negative,
      abs_of_nonpos (by linarith)] at near
    linarith
  · have near := faithful.near _ (neighbour 1 rfl)
    rw [abs_of_nonneg nonneg] at step
    push_cast at near
    rw [add_sub_cancel_left, add_sub_add_left_eq_sub, abs_of_nonneg nonneg,
      abs_of_nonneg (by linarith)] at near
    linarith

theorem eq_of_clip {v r : ℝ} (clipped : clip (v : EReal) = (r : EReal)) : v = r := by
  unfold clip at clipped
  split at clipped
  · cases clipped
  split at clipped
  · cases clipped
  · exact_mod_cast clipped

/-- Adding at least an eighth of a double to it makes another one. -/
theorem value?_add_ne {r d : ℝ} (hx : value? x = some (r : EReal)) (hy : value? y = some (d : EReal))
    (large : 1 ≤ |r|) (far : |r| ≤ 8 * |d|) : value? (x + y) ≠ some (r : EReal) := by
  obtain ⟨k, e, full, small, least, rfl⟩ := exists_full hx large
  obtain ⟨v, faithful, value⟩ := rounds_add hx hy
  intro same
  rw [value, Option.some.injEq] at same
  exact faithful.ne_of_full full small least far (eq_of_clip same)

/-- Dividing a double that is not tiny by a small power of two is exact. -/
theorem grid_div_two_pow {r : ℝ} (value : value? x = some (r : EReal)) (large : 1 ≤ |r|) {j : ℕ}
    (small : j ≤ 1000) : Grid (r / 2 ^ j) := by
  obtain ⟨k, e, -, bound, -, rfl⟩ := exists_full value large
  have above : -53 < e := by
    by_contra below
    have unit : (2 : ℝ) ^ e ≤ 2 ^ (-53 : ℤ) := zpow_le_zpow_right₀ (by norm_num) (by omega)
    have bound : |(k : ℝ)| < 2 ^ 53 := by exact_mod_cast bound
    have pos : (0 : ℝ) < 2 ^ e := by positivity
    have less : |(k : ℝ)| * 2 ^ e < 1 :=
      calc |(k : ℝ)| * 2 ^ e < 2 ^ 53 * 2 ^ e := by gcongr
        _ ≤ 2 ^ 53 * 2 ^ (-53 : ℤ) := by gcongr
        _ = 1 := by norm_num
    rw [abs_mul, abs_of_pos pos] at large
    linarith
  refine ⟨k, e - j, bound.le, by omega, ?_⟩
  rw [zpow_sub₀ (by norm_num), zpow_natCast]
  ring

theorem le_clip {r v : ℝ} (nonneg : 0 ≤ r) (le : r ≤ v) : (r : EReal) ≤ clip (v : EReal) := by
  have positive := limit_pos
  unfold clip
  split
  · exact le_top
  split
  · rename_i below
    rw [EReal.coe_le_coe_iff] at below
    linarith
  · exact EReal.coe_le_coe_iff.2 le

theorem value?_quarter : value? 0.25 = some ((1 / 4 : ℝ) : EReal) := by
  have rounds := rounds_ofScientific 25 (e := 2) (by norm_num) true
  have quarter : ((25 : ℕ) : ℝ) * 10 ^ (if true then -((2 : ℕ) : ℤ) else (2 : ℕ)) = 1 / 4 := by
    norm_num
  rw [quarter] at rounds
  refine rounds.value?_of_grid ⟨1, -2, by norm_num, by norm_num, by norm_num⟩ (lt_limit ?_)
  norm_num

theorem Binary.nearest_eq (b : Binary) : b.nearest = ⌊b.value + 1 / 2⌋ := by
  have nonzero : (b.denominator : ℝ) ≠ 0 := by exact_mod_cast b.denominator_pos.ne'
  have half : b.value + 1 / 2
      = ((2 * b.numerator + b.denominator : ℤ) : ℝ) / ((2 * b.denominator : ℕ) : ℝ) := by
    rw [value_eq_div]
    push_cast
    field_simp
  rw [half, Int.floor_div_natCast, Int.floor_intCast]
  rfl

theorem rounds_round {b : Binary} (form : Binary.ofFloat? x = some b) :
    Rounds b.nearest (round x) := by
  unfold round
  rw [form]
  show Rounds b.nearest (ofWhole b.negative b.nearest)
  unfold ofWhole
  split
  · rename_i zero
    have zero : b.nearest = 0 := by simp_all
    have value : toInt? (-0.0) = some 0 := by decide +kernel
    have value := toInt?_eq_some.1 value
    rw [zero]
    refine ⟨_, .of_grid (Grid.intCast (n := 0) (by norm_num)), ?_⟩
    rw [value, clip_coe_of_lt (by simpa using limit_pos)]
  · exact rounds_ofInt _

end Number

namespace Mutation

variable {window : Float} {n : ℤ}

/-- A step is at least one day, and at least an eighth of the window. -/
theorem value?_step (whole : Number.toInt? window = some n) (positive : 1 ≤ n) :
    ∃ a, Number.value? (Number.greater 1 (Number.round (window * 0.25))) = some a ∧
      (a = ⊤ ∨ ∃ d : ℝ, a = d ∧ 1 ≤ d ∧ (n : ℝ) ≤ 8 * d) := by
  have value := Number.toInt?_eq_some.1 whole
  have large : 1 ≤ |(n : ℝ)| := by exact_mod_cast positive.trans (le_abs_self n)
  have eighth : Number.Grid ((n : ℝ) / 8) := by
    have := Number.grid_div_two_pow value large (j := 3) (by norm_num)
    norm_num at this
    exact this
  have product : Number.value? (window * 0.25) = some (((n : ℝ) / 4 : ℝ) : EReal) := by
    have rounds := Number.rounds_mul value Number.value?_quarter
    have grid := Number.grid_div_two_pow value large (j := 2) (by norm_num)
    have bound := (Number.grid_of_value? value).2
    norm_num at grid
    rw [mul_one_div] at rounds
    refine rounds.value?_of_grid grid ?_
    rw [abs_div]
    exact (div_le_self (abs_nonneg _) (by norm_num)).trans_lt bound
  obtain ⟨b, form, same⟩ := Number.exists_ofFloat?_of_value? product
  obtain ⟨v, faithful, rounded⟩ := Number.rounds_round form
  have one : Number.toInt? 1 = some 1 := by decide +kernel
  have step := Number.value?_greater (Number.toInt?_eq_some.1 one) rounded
  have least : (((n : ℝ) / 8 : ℝ) : EReal) ≤ max (((1 : ℤ) : ℝ) : EReal) (Number.clip v) := by
    rcases le_or_gt n 8 with short | long
    · have short : (n : ℝ) ≤ 8 := by exact_mod_cast short
      refine le_max_of_le_left (EReal.coe_le_coe_iff.2 ?_)
      push_cast
      linarith
    · have long : (8 : ℝ) < n := by exact_mod_cast long
      have nearest := Int.sub_one_lt_floor (b.value + 1 / 2)
      rw [← b.nearest_eq, same] at nearest
      refine le_max_of_le_right (Number.le_clip (by linarith) ?_)
      exact faithful.below _ eighth (by linarith)
  have unit : (((1 : ℤ) : ℝ) : EReal) ≤ max (((1 : ℤ) : ℝ) : EReal) (Number.clip v) :=
    le_max_left _ _
  refine ⟨_, step, ?_⟩
  generalize max (((1 : ℤ) : ℝ) : EReal) (Number.clip v) = a at *
  induction a with
  | bot => exact absurd unit (EReal.bot_lt_coe _).not_ge
  | top => exact .inl rfl
  | coe d =>
      rw [EReal.coe_le_coe_iff] at unit least
      push_cast at unit
      exact .inr ⟨d, rfl, unit, by linarith⟩

theorem value?_stepWindow_ne (whole : Number.toInt? window = some n) (positive : 1 ≤ n) (r : Rng) :
    Number.value? (stepWindow window r).1 ≠ some ((n : ℝ) : EReal) := by
  have value := Number.toInt?_eq_some.1 whole
  have large : 1 ≤ |(n : ℝ)| := by exact_mod_cast positive.trans (le_abs_self n)
  have size : |(n : ℝ)| = n := abs_of_nonneg (by exact_mod_cast (zero_le_one.trans positive))
  obtain ⟨a, step, rfl | ⟨d, rfl, unit, far⟩⟩ := value?_step whole positive
  · unfold stepWindow
    dsimp only
    split
    · rw [Number.value?_add_of_infinite value (Number.value?_neg step) (.inr EReal.neg_top)]
      exact fun same => EReal.coe_ne_bot _ (Option.some.inj same).symm
    · rw [Number.value?_add_of_infinite value step (.inl rfl)]
      exact fun same => EReal.coe_ne_top _ (Option.some.inj same).symm
  · have size' : |d| = d := abs_of_nonneg (by linarith)
    unfold stepWindow
    dsimp only
    split
    · refine Number.value?_add_ne value (Number.value?_neg step) large ?_
      rw [size, abs_neg, size']
      exact far
    · refine Number.value?_add_ne value step large ?_
      rw [size, size']
      exact far

theorem value?_moveWindow_ne (whole : Number.toInt? window = some n) (positive : 1 ≤ n) (r : Rng) :
    Number.value? (moveWindow window r).1 ≠ some ((n : ℝ) : EReal) := by
  unfold moveWindow
  dsimp only
  split
  · exact value?_stepWindow_ne whole positive r
  · rename_i different
    split
    · intro same
      exact different ((Number.beq_iff same (Number.toInt?_eq_some.1 whole)).2 rfl)
    · exact value?_stepWindow_ne whole positive _

/-! ## Ranges -/

/-- A window between the bounds of a range. -/
def Inside (window : Float) (range : WindowRange) : Prop :=
  ∃ low n high, Number.toInt? range.min = some low ∧ Number.toInt? window = some n ∧
    Number.toInt? range.max = some high ∧ low < n ∧ n < high

/-- A range of one window only. -/
def Single (range : WindowRange) : Prop :=
  ∃ n, Number.toInt? range.min = some n ∧ Number.toInt? range.max = some n

theorem Inside.not_single {range : WindowRange} (inside : Inside window range) :
    ¬Single range := by
  obtain ⟨low, n, high, least, -, greatest, above, below⟩ := inside
  rintro ⟨k, least', greatest'⟩
  obtain rfl := Option.some.inj (least.symm.trans least')
  obtain rfl := Option.some.inj (greatest.symm.trans greatest')
  omega

theorem value?_clamp {x : Float} {a : EReal} {range : WindowRange} {low high : ℤ}
    (value : Number.value? x = some a) (least : Number.toInt? range.min = some low)
    (greatest : Number.toInt? range.max = some high) :
    Number.value? (clamp x range) = some (min ((high : ℝ) : EReal) (max ((low : ℝ) : EReal) a)) :=
  Number.value?_lesser (Number.toInt?_eq_some.1 greatest)
    (Number.value?_greater (Number.toInt?_eq_some.1 least) value)

/-- From the inside of a range, every move leads to another window of the range. -/
theorem Inside.moves {range : WindowRange} (inside : Inside window range)
    (valid : range.isValid = true) (r : Rng) :
    (clamp (moveWindow window r).1 range == window) = false := by
  obtain ⟨low, n, high, least, whole, greatest, above, below⟩ := inside
  obtain ⟨low', high', ends, positive, -⟩ := range.isValid_iff.1 valid
  obtain ⟨least', -⟩ := WindowRange.bounds?_eq_some.1 ends
  obtain rfl := Option.some.inj (least.symm.trans least')
  obtain ⟨a, value, -⟩ := whole_moveWindow whole r
  have other := value?_moveWindow_ne whole (positive.trans above.le) r
  rw [value, ne_eq, Option.some.injEq] at other
  have above : ((low : ℝ) : EReal) < ((n : ℝ) : EReal) :=
    EReal.coe_lt_coe_iff.2 (by exact_mod_cast above)
  have below : ((n : ℝ) : EReal) < ((high : ℝ) : EReal) :=
    EReal.coe_lt_coe_iff.2 (by exact_mod_cast below)
  refine Bool.eq_false_iff.2 fun same => ?_
  have same := (Number.beq_iff (value?_clamp value least greatest)
    (Number.toInt?_eq_some.1 whole)).1 same
  rcases lt_or_gt_of_ne other with less | more
  · exact ((min_le_right _ _).trans_lt (max_lt above less)).ne same
  · exact (lt_min below (more.trans_le (le_max_right _ _))).ne' same

/-- In a range of one window, every move ends at this window. -/
theorem Single.stays {range : WindowRange} (single : Single range) {low high : ℤ}
    (ends : range.bounds? = some (low, high)) (whole : Number.toInt? window = some n)
    (above : low ≤ n) (below : n ≤ high) (r : Rng) :
    (clamp (moveWindow window r).1 range == window) = true := by
  obtain ⟨k, least, greatest⟩ := single
  obtain ⟨least', greatest'⟩ := WindowRange.bounds?_eq_some.1 ends
  obtain rfl := Option.some.inj (least.symm.trans least')
  obtain rfl := Option.some.inj (greatest.symm.trans greatest')
  obtain rfl := le_antisymm above below
  obtain ⟨a, value, -⟩ := whole_moveWindow whole r
  refine (Number.beq_iff (value?_clamp value least greatest) (Number.toInt?_eq_some.1 whole)).2 ?_
  exact min_eq_left (le_max_left _ _)

/-! ## What there is to change -/

/-- Nothing in a formula can be changed in a way. -/
def Idle (c : Catalog) (m : Mutation) (e : Expr) : Prop :=
  match m with
  | swapField => ∀ v ∈ openVisits c e, fieldAlternatives c v = []
  | swapOperator => ∀ v ∈ openVisits c e, operatorAlternatives c v = []
  | adjustWindow => ∀ v ∈ openVisits c e, ∀ window range,
      windowOf c v = some (window, range) → Single range

/-- No window that may be changed stands at a bound of a range of more than one window, and there
are not both windows inside of ranges and ranges of one window. -/
def Steady (c : Catalog) (e : Expr) : Prop :=
  (∀ v ∈ openVisits c e, ∀ window range, windowOf c v = some (window, range) →
      Inside window range) ∨
    ∀ v ∈ openVisits c e, ∀ window range, windowOf c v = some (window, range) → Single range

variable {c : Catalog} {e : Expr} {tier : Tier} {cap : Float}

theorem replaceField_eq_none_iff (r : Rng) :
    (replaceField c e r).1 = none ↔ Idle c swapField e := by
  unfold replaceField
  dsimp only
  split
  · rename_i empty
    have none := List.filterMap_eq_nil_iff.1 (List.isEmpty_iff.1 empty)
    exact iff_of_true rfl fun v member => by simpa using none v member
  · rename_i some_option
    obtain ⟨v, n, member, -, some_alternative, s, f, s', picked, chosen⟩ :=
      Traps.exists_alternative (fieldAlternatives c) rfl some_option r
    rw [picked]
    dsimp only
    rw [chosen]
    exact iff_of_false nofun fun idle => some_alternative (List.isEmpty_iff.2 (idle v member))

theorem replaceOperator_eq_none_iff (r : Rng) :
    (replaceOperator c e r).1 = none ↔ Idle c swapOperator e := by
  unfold replaceOperator
  dsimp only
  split
  · rename_i empty
    have none := List.filterMap_eq_nil_iff.1 (List.isEmpty_iff.1 empty)
    exact iff_of_true rfl fun v member => by simpa using none v member
  · rename_i some_option
    obtain ⟨v, n, member, target, some_alternative, s, op, s', picked, chosen⟩ :=
      Traps.exists_alternative (operatorAlternatives c) rfl some_option r
    obtain ⟨operator, children, window, rfl⟩ :=
      Traps.exists_apply_of_alternatives target some_alternative
    rw [picked]
    dsimp only
    rw [chosen, target.found]
    exact iff_of_false nofun fun idle => some_alternative (List.isEmpty_iff.2 (idle v member))

/-- A window is not moved if there is none, or if the one that is drawn moves to itself. -/
theorem replaceWindow_cases (c : Catalog) (e : Expr) (r : Rng) :
    ((∀ v ∈ openVisits c e, windowOf c v = none) ∧ (replaceWindow c e r).1 = none) ∨
      ∃ v ∈ openVisits c e, ∃ window range s, windowOf c v = some (window, range) ∧
        ((replaceWindow c e r).1 = none ↔
          (clamp (moveWindow window s).1 range == window) = true) := by
  unfold replaceWindow
  dsimp only
  split
  · rename_i empty
    have none := List.filterMap_eq_nil_iff.1 (List.isEmpty_iff.1 empty)
    exact .inl ⟨fun v member => Option.map_eq_none_iff.1 (none v member), rfl⟩
  · rename_i some_option
    obtain ⟨⟨path, window, range⟩, s, picked⟩ := Traps.exists_pick some_option r
    obtain ⟨v, member, made⟩ := List.mem_filterMap.1 (Rng.mem_of_pick? picked)
    obtain ⟨_, windowed, same⟩ := Option.map_eq_some_iff.1 made
    obtain ⟨rfl, rfl⟩ := Prod.mk.inj same
    obtain ⟨n, target⟩ := target_of_mem member
    obtain ⟨operator, children, w, rfl⟩ := Traps.exists_apply_of_window target windowed
    refine .inr ⟨v, member, window, range, s, windowed, ?_⟩
    rw [picked]
    dsimp only
    rw [target.found]
    split
    · rename_i still
      exact iff_of_true rfl still
    · rename_i moved
      exact iff_of_false nofun moved

/-- A window that may be changed is a whole number in its range, and its range is valid. -/
theorem exists_in_range (built : e.outline.WellBuilt c tier) {v : Visit}
    (member : v ∈ openVisits c e) {window : Float} {range : WindowRange}
    (windowed : windowOf c v = some (window, range)) :
    range.isValid = true ∧ ∃ low high n, range.bounds? = some (low, high) ∧
      Number.toInt? window = some n ∧ low ≤ n ∧ n ≤ high := by
  obtain ⟨n, target⟩ := target_of_mem member
  unfold windowOf at windowed
  split at windowed
  · rename_i operator w label
    obtain ⟨range', ranged, same⟩ := Option.map_eq_some_iff.1 windowed
    obtain ⟨rfl, rfl⟩ := Prod.mk.inj same
    obtain ⟨op, found, -, -, inside⟩ := built.nodes _ _ (label ▸ target.sees.label)
    obtain ⟨range, low, high, k, ranged', ends, whole, above, below⟩ := inside w rfl
    rw [found, Option.bind_some, ranged'] at ranged
    obtain rfl := Option.some.inj ranged
    exact ⟨(Catalog.operator?_sound found).range range ranged', low, high, k, ends, whole, above,
      below⟩
  · cases windowed

theorem replaceWindow_eq_none_iff (built : e.outline.WellBuilt c tier) (steady : Steady c e)
    (r : Rng) : (replaceWindow c e r).1 = none ↔ Idle c adjustWindow e := by
  rcases replaceWindow_cases c e r with
    ⟨windowless, none⟩ | ⟨v, member, window, range, s, windowed, still⟩
  · refine iff_of_true none fun v member window range windowed => ?_
    rw [windowless v member] at windowed
    cases windowed
  · obtain ⟨valid, low, high, n, ends, whole, above, below⟩ :=
      exists_in_range built member windowed
    rw [still]
    rcases steady with inside | single
    · have inside := inside v member window range windowed
      refine iff_of_false (by rw [inside.moves valid s]; exact Bool.false_ne_true) fun idle => ?_
      exact inside.not_single (idle v member window range windowed)
    · have stays := (single v member window range windowed).stays ends whole above below s
      exact iff_of_true stays single

/-- On an accepted formula, whether a mutation returns nothing does not depend on what is drawn: it
does so for every stream, where there is nothing to change in this way, or for none. -/
theorem apply_none_or_some {m : Mutation}
    (accepted : (({ catalog := c, cap } : Validator).validateTree e tier).accepted = true)
    (steady : m = adjustWindow → Steady c e) :
    Idle c m e ∧ (∀ r, (m.apply c e r).1 = none) ∨ ¬Idle c m e ∧ ∀ r, (m.apply c e r).1 ≠ none := by
  have built := (e.survey_shows.accepted_iff.1 accepted).toWellBuilt
  have settled (r : Rng) : (m.apply c e r).1 = none ↔ Idle c m e := by
    cases m with
    | swapField => exact replaceField_eq_none_iff r
    | swapOperator => exact replaceOperator_eq_none_iff r
    | adjustWindow => exact replaceWindow_eq_none_iff built (steady rfl) r
  by_cases idle : Idle c m e
  · exact .inl ⟨idle, fun r => (settled r).2 idle⟩
  · exact .inr ⟨idle, fun r none => idle ((settled r).1 none)⟩

end Mutation

namespace Catalog

/-- A catalog of two windows, with a range of two days and one of three. -/
def delaying : Catalog :=
  ⟨{ domains := ["real"]
     fields := [⟨"close", "price", "real", none⟩]
     operators := [
       { id := "delay", category := .timeSeries, arity := .windowed, inputs := [["real"]],
         output := "real", template := "delay(\x7b0\x7d, \x7bwindow\x7d)",
         window := some ⟨1, 2⟩ },
       { id := "mean", category := .timeSeries, arity := .windowed, inputs := [["real"]],
         output := "real", template := "mean(\x7b0\x7d, \x7bwindow\x7d)",
         window := some ⟨1, 3⟩ }] }, by decide +kernel⟩

end Catalog

namespace Mutation

theorem apply_some_mean :
    (({ catalog := Catalog.delaying } : Validator).validateTree
        (.apply "mean" [.field "close"] (some 2)) .basic).accepted = true ∧
      Steady Catalog.delaying (.apply "mean" [.field "close"] (some 2)) ∧
      ∀ r, (adjustWindow.apply Catalog.delaying (.apply "mean" [.field "close"] (some 2)) r).1
        ≠ none := by
  have accepted : (({ catalog := Catalog.delaying } : Validator).validateTree
      (.apply "mean" [.field "close"] (some 2)) .basic).accepted = true := by
    decide +kernel
  have inside : Inside 2 ⟨1, 3⟩ :=
    ⟨1, 2, 3, by decide +kernel, by decide +kernel, by decide +kernel, by decide, by decide⟩
  have steady : Steady Catalog.delaying (.apply "mean" [.field "close"] (some 2)) := by
    refine .inl fun v member window range windowed => ?_
    have visits : openVisits Catalog.delaying (.apply "mean" [.field "close"] (some 2))
        = [⟨[], .apply "mean" (some 2), [.field "close"], none⟩,
          ⟨[0], .field "close", [], some "mean"⟩] := rfl
    rw [visits] at member
    rcases List.mem_cons.1 member with rfl | member
    · have only : windowOf Catalog.delaying
          ⟨[], .apply "mean" (some 2), [.field "close"], none⟩ = some (2, ⟨1, 3⟩) := rfl
      obtain ⟨rfl, rfl⟩ := Prod.mk.inj (Option.some.inj (only.symm.trans windowed))
      exact inside
    · obtain rfl := List.mem_singleton.1 member
      cases windowed
  refine ⟨accepted, steady, ?_⟩
  rcases apply_none_or_some (m := adjustWindow) accepted fun _ => steady with ⟨idle, -⟩ | ⟨-, moved⟩
  · exact absurd (idle _ (.head _) 2 ⟨1, 3⟩ rfl) inside.not_single
  · exact moved

/-- A window at a bound of its range is moved or not, as the draws have it. -/
theorem apply_none_by_chance :
    (({ catalog := Catalog.delaying } : Validator).validateTree
        (.apply "delay" [.field "close"] (some 1)) .basic).accepted = true ∧
      (adjustWindow.apply Catalog.delaying (.apply "delay" [.field "close"] (some 1)) ⟨0⟩).1 = none ∧
      (adjustWindow.apply Catalog.delaying (.apply "delay" [.field "close"] (some 1)) ⟨1⟩).1
        ≠ none := by
  have still : (adjustWindow.apply Catalog.delaying
      (.apply "delay" [.field "close"] (some 1)) ⟨0⟩).1.isNone = true := by
    decide +kernel
  have moved : (adjustWindow.apply Catalog.delaying
      (.apply "delay" [.field "close"] (some 1)) ⟨1⟩).1.isSome = true := by
    decide +kernel
  exact ⟨by decide +kernel, Option.isNone_iff_eq_none.1 still, Option.isSome_iff_ne_none.1 moved⟩

end Mutation

end AlphaFoundry
