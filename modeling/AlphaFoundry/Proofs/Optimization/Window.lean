/-
# AlphaFoundry.Proofs.Optimization.Window -- the windows that mutations choose

A moved window is a common period, or a whole window plus or minus a rounded step; it is whole or
infinite, whatever the rounding does.  Clamping then brings it into the range of the operator, as a
whole number.
-/
import Mathlib
import AlphaFoundry.Optimization.Mutation
import AlphaFoundry.Proofs.Number.Arithmetic
import AlphaFoundry.Proofs.Catalog.Sound

namespace AlphaFoundry

set_option autoImplicit false

/-- Bounds clamp whole numbers and infinities into a valid range. -/
theorem Mutation.toInt?_clamp {x : Float} {range : WindowRange} {low high : Int}
    (whole : Number.Whole x) (ends : range.bounds? = some (low, high)) (ordered : low ≤ high) :
    ∃ n, Number.toInt? (clamp x range) = some n ∧ low ≤ n ∧ n ≤ high := by
  obtain ⟨least, greatest⟩ := WindowRange.bounds?_eq_some.1 ends
  have least := Number.toInt?_eq_some.1 least
  have greatest := Number.toInt?_eq_some.1 greatest
  have coe_le {m n : Int} (h : m ≤ n) : ((m : ℝ) : EReal) ≤ ((n : ℝ) : EReal) :=
    EReal.coe_le_coe_iff.2 (by exact_mod_cast h)
  obtain ⟨a, value, rfl | rfl | ⟨n, rfl⟩⟩ := whole
  · have clamped := Number.value?_lesser greatest (Number.value?_greater least value)
    rw [max_top_right, min_top_right] at clamped
    exact ⟨high, Number.toInt?_eq_some.2 clamped, ordered, le_rfl⟩
  · have clamped := Number.value?_lesser greatest (Number.value?_greater least value)
    rw [max_bot_right, min_eq_right (coe_le ordered)] at clamped
    exact ⟨low, Number.toInt?_eq_some.2 clamped, le_rfl, ordered⟩
  · have clamped := Number.value?_lesser greatest (Number.value?_greater least value)
    have inner : max ((low : ℝ) : EReal) ((n : ℝ) : EReal) = ((max low n : ℤ) : ℝ) := by
      rcases le_total low n with le | le
      · rw [max_eq_right (coe_le le), max_eq_right le]
      · rw [max_eq_left (coe_le le), max_eq_left le]
    have outer (m : Int) : min ((high : ℝ) : EReal) ((m : ℝ) : EReal) = ((min high m : ℤ) : ℝ) := by
      rcases le_total high m with le | le
      · rw [min_eq_left (coe_le le), min_eq_left le]
      · rw [min_eq_right (coe_le le), min_eq_right le]
    rw [inner, outer] at clamped
    exact ⟨min high (max low n), Number.toInt?_eq_some.2 clamped, by omega, by omega⟩

theorem Mutation.whole_stepWindow {window : Float} {n : Int}
    (whole : Number.toInt? window = some n) (r : Rng) :
    Number.Whole (stepWindow window r).1 := by
  have quarter : ∃ q : ℝ, Number.value? 0.25 = some (q : EReal) :=
    Number.isFinite_iff.1 (by decide +kernel)
  obtain ⟨q, quarter⟩ := quarter
  obtain ⟨v, -, product⟩ := Number.rounds_mul (Number.toInt?_eq_some.1 whole) quarter
  have one : Number.toInt? 1 = some 1 := by decide +kernel
  have step := (Number.whole_of_toInt? one).greater (Number.whole_round product)
  unfold stepWindow
  dsimp only
  split
  · exact step.neg.add whole
  · exact step.add whole

theorem Score.whole_nearestPeriod (window : Float) :
    Number.Whole (nearestPeriod window) := by
  have periods : ∀ period ∈ shortestPeriod :: commonPeriods, ∃ n, Number.toInt? period = some n := by
    intro period member
    fin_cases member
    · exact ⟨5, by decide +kernel⟩
    · exact ⟨10, by decide +kernel⟩
    · exact ⟨20, by decide +kernel⟩
    · exact ⟨60, by decide +kernel⟩
    · exact ⟨120, by decide +kernel⟩
    · exact ⟨252, by decide +kernel⟩
  suffices kept : ∀ (ps : List Float) (best : Float), (∀ p ∈ best :: ps, Number.Whole p) →
      Number.Whole (ps.foldl (fun best period =>
        if (period - window).abs < (best - window).abs then period else best) best) by
    refine kept commonPeriods shortestPeriod fun p member => ?_
    obtain ⟨n, whole⟩ := periods p member
    exact Number.whole_of_toInt? whole
  intro ps
  induction ps with
  | nil => exact fun best each => each best List.mem_cons_self
  | cons p ps ih =>
      intro best each
      rw [List.foldl_cons]
      refine ih _ fun q member => ?_
      rcases List.mem_cons.1 member with rfl | member
      · split
        · exact each p (List.mem_cons_of_mem _ List.mem_cons_self)
        · exact each best List.mem_cons_self
      · exact each q (List.mem_cons_of_mem _ (List.mem_cons_of_mem _ member))

theorem Mutation.whole_moveWindow {window : Float} {n : Int}
    (whole : Number.toInt? window = some n) (r : Rng) :
    Number.Whole (moveWindow window r).1 := by
  unfold moveWindow
  dsimp only
  split
  · exact whole_stepWindow whole r
  · split
    · exact Score.whole_nearestPeriod window
    · exact whole_stepWindow whole _

end AlphaFoundry
