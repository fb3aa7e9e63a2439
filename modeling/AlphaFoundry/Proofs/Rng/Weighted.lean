/-
# AlphaFoundry.Proofs.Rng.Weighted -- choices by weight in exact numbers

The running threshold falls below zero at the one weight whose stretch of the total holds it:
`sum before i ≤ u * total < sum through i`.  So a weighted choice takes a single draw as long as
some weight is positive, and never falls on a weight that is not.  Without a positive weight it is
the uniform choice (`pickWeighted?_answers`).
-/
import Mathlib
import AlphaFoundry.Proofs.Rng.Draw

namespace AlphaFoundry

set_option autoImplicit false

namespace Rng

variable {weights : List ℚ} {threshold : ℚ} {i : ℕ} {r : Rng}

/-- The stretch of the total that a position takes. -/
def Holds (weights : List ℚ) (threshold : ℚ) (i : ℕ) : Prop :=
  (weights.take i).sum ≤ threshold ∧ threshold < (weights.take (i + 1)).sum

theorem holds_cons_zero {w : ℚ} :
    Holds (w :: weights) threshold 0 ↔ 0 ≤ threshold ∧ threshold < w := by
  simp [Holds]

theorem holds_cons_succ {w : ℚ} :
    Holds (w :: weights) threshold (i + 1) ↔ Holds weights (threshold - w) i := by
  simp only [Holds, List.take_succ_cons, List.sum_cons, le_sub_iff_add_le', sub_lt_iff_lt_add']

/-- The threshold settles at the position whose stretch holds it. -/
theorem settle_eq_some_iff : ∀ {weights : List ℚ} {threshold : ℚ} {i : ℕ},
    (∀ w ∈ weights, 0 ≤ w) → 0 ≤ threshold →
    (settle threshold weights = some i ↔ Holds weights threshold i)
  | [], threshold, i, _, start => by
      simp [settle, Holds, start]
  | w :: ws, threshold, i, nonneg, start => by
      obtain ⟨-, below⟩ := List.forall_mem_cons.1 nonneg
      have step : settle threshold (w :: ws)
          = if threshold < w then some 0 else (settle (threshold - w) ws).map (· + 1) := by
        rw [settle]
        simp [Scale.sub, Scale.lt, Scale.ofNat]
      rw [step]
      by_cases inside : threshold < w
      · rw [if_pos inside]
        cases i with
        | zero => simp [holds_cons_zero, start, inside]
        | succ i =>
            -- Nothing behind is reached: what is left would be below zero.
            have early : ¬Holds ws (threshold - w) i := fun reached => by
              have before : 0 ≤ (ws.take i).sum :=
                List.sum_nonneg fun x member => below x (List.mem_of_mem_take member)
              linarith [reached.1]
            simp [holds_cons_succ, early]
      · rw [if_neg inside]
        have left : 0 ≤ threshold - w := by linarith
        cases i with
        | zero => simp [holds_cons_zero, inside]
        | succ i =>
            rw [holds_cons_succ, ← settle_eq_some_iff below left]
            simp

/-- The stretches do not overlap. -/
theorem Holds.unique {j : ℕ} (nonneg : ∀ w ∈ weights, 0 ≤ w) (start : 0 ≤ threshold)
    (holds : Holds weights threshold i) (holds' : Holds weights threshold j) : i = j := by
  have settled := (settle_eq_some_iff nonneg start).2 holds
  rw [(settle_eq_some_iff nonneg start).2 holds'] at settled
  exact (Option.some.inj settled).symm

theorem exists_settle (nonneg : ∀ w ∈ weights, 0 ≤ w) (start : 0 ≤ threshold)
    (inside : threshold < weights.sum) : ∃ i, settle threshold weights = some i := by
  induction weights generalizing threshold with
  | nil =>
      rw [List.sum_nil] at inside
      linarith
  | cons w ws ih =>
      obtain ⟨-, below⟩ := List.forall_mem_cons.1 nonneg
      by_cases here : threshold < w
      · exact ⟨0, (settle_eq_some_iff nonneg start).2 (holds_cons_zero.2 ⟨start, here⟩)⟩
      · rw [List.sum_cons] at inside
        have left : 0 ≤ threshold - w := by linarith
        obtain ⟨i, settled⟩ := ih below left (by linarith)
        refine ⟨i + 1, (settle_eq_some_iff nonneg start).2 (holds_cons_succ.2 ?_)⟩
        exact (settle_eq_some_iff below left).1 settled

/-! ## One choice -/

/-- Weights below zero count as zero. -/
theorem clipped_eq (weights : List ℚ) :
    weights.map (Scale.greater (Scale.ofNat 0)) = weights.map (max 0) := by
  refine List.map_congr_left fun w _ => ?_
  show (if ((0 : ℕ) : ℚ) ≤ w then w else ((0 : ℕ) : ℚ)) = max 0 w
  rw [Nat.cast_zero, max_def]

theorem foldl_add_eq (weights : List ℚ) :
    weights.foldl Scale.add (Scale.ofNat 0) = weights.sum := by
  show weights.foldl (· + ·) ((0 : ℕ) : ℚ) = weights.sum
  rw [Nat.cast_zero, List.sum_eq_foldl]

/-- If some weight is positive, one draw is taken, and the choice is the position whose stretch of
the total holds the draw's share of it. -/
theorem weighted_holds (positive : 0 < (weights.map (max 0)).sum) (r : Rng) :
    ∃ i, r.weighted weights = (i, r.next.2) ∧
      Holds (weights.map (max 0)) (Scale.share r.next.1 * (weights.map (max 0)).sum) i := by
  have nonneg : ∀ w ∈ weights.map (max (0 : ℚ)), 0 ≤ w := by simp
  have start : 0 ≤ Scale.share r.next.1 * (weights.map (max 0)).sum :=
    mul_nonneg r.share_nonneg positive.le
  have inside : Scale.share r.next.1 * (weights.map (max 0)).sum < (weights.map (max 0)).sum := by
    have := mul_lt_mul_of_pos_right r.share_lt_one positive
    rwa [one_mul] at this
  obtain ⟨i, settled⟩ := exists_settle nonneg start inside
  refine ⟨i, ?_, (settle_eq_some_iff nonneg start).1 settled⟩
  have some_weight : Scale.le (weights.map (max (0 : ℚ))).sum (Scale.ofNat 0) = false := by
    show decide ((weights.map (max 0)).sum ≤ ((0 : ℕ) : ℚ)) = false
    simpa using positive
  have settled : settle (Scale.mul (Scale.share r.next.1) (weights.map (max 0)).sum)
      (weights.map (max 0)) = some i := settled
  unfold weighted
  dsimp only
  rw [clipped_eq, foldl_add_eq, some_weight, if_neg Bool.false_ne_true, settled]

/-- A position whose stretch holds something has a positive weight. -/
theorem Holds.positive (holds : Holds weights threshold i) : ∃ w, weights[i]? = some w ∧ 0 < w := by
  obtain ⟨before, through⟩ := holds
  rw [List.take_add_one, List.sum_append] at through
  cases at_i : weights[i]? with
  | none =>
      rw [at_i, Option.toList_none, List.sum_nil, add_zero] at through
      exact absurd through before.not_gt
  | some w =>
      rw [at_i, Option.toList_some, List.sum_singleton] at through
      exact ⟨w, rfl, by linarith⟩

/-- As long as one of the items has a positive weight, the chosen one has. -/
theorem weight_pos_of_pickWeighted? {β : Type} {items : List β} {weight : β → ℚ} {b c : β}
    (member : b ∈ items) (positive : 0 < weight b)
    (chosen : (r.pickWeighted? items weight).1 = some c) : 0 < weight c := by
  have clipped : 0 < (((items.map weight).map (max 0)).sum) := by
    have single : max 0 (weight b) ≤ ((items.map weight).map (max 0)).sum :=
      List.single_le_sum (by simp) _ (List.mem_map_of_mem (List.mem_map_of_mem member))
    exact (lt_max_of_lt_right positive).trans_le single
  obtain ⟨i, drawn, holds⟩ := weighted_holds clipped r
  obtain ⟨w, at_i, above⟩ := holds.positive
  have chosen : items[i]? = some c := by
    rw [← chosen]
    show _ = items[(r.weighted (items.map weight)).1]?
    rw [drawn]
  rw [List.getElem?_map, List.getElem?_map, chosen] at at_i
  obtain rfl := Option.some.inj at_i
  exact (lt_max_iff.1 above).resolve_left (lt_irrefl 0)

/-- Without a positive weight the choice is uniform. -/
theorem weighted_of_sum_eq_zero (none : (weights.map (max 0)).sum = 0) (r : Rng) :
    r.weighted weights = r.index weights.length := by
  have no_weight : Scale.le (weights.map (max (0 : ℚ))).sum (Scale.ofNat 0) = true := by
    show decide ((weights.map (max 0)).sum ≤ ((0 : ℕ) : ℚ)) = true
    simp [none]
  unfold weighted
  dsimp only
  rw [clipped_eq, foldl_add_eq, no_weight, if_pos rfl, List.length_map]

/-- The weights of the items as they count, none below zero. -/
def stakes {β : Type} (items : List β) (weight : β → ℚ) : List ℚ :=
  (items.map weight).map (max 0)

/-- What a choice by weight returns, for any items, weights and state.  As long as some weight is
positive, one draw is taken and its share of the total lies in the stretch of one item only.  The
search ends there, so nothing is drawn behind it, and that item, whose weight is positive, is
chosen.  Otherwise the choice is the uniform one. -/
theorem pickWeighted?_answers {β : Type} (items : List β) (weight : β → ℚ) (r : Rng) :
    (0 < (stakes items weight).sum →
      ∃ i b, items[i]? = some b ∧ r.pickWeighted? items weight = (some b, r.next.2) ∧
        0 < weight b ∧
        (∀ j, Holds (stakes items weight)
          (Scale.share r.next.1 * (stakes items weight).sum) j ↔ j = i) ∧
        settle (Scale.share r.next.1 * (stakes items weight).sum) (stakes items weight) = some i) ∧
    ((stakes items weight).sum = 0 → r.pickWeighted? items weight = r.pick? items) := by
  have nonneg : ∀ w ∈ stakes items weight, 0 ≤ w := by simp [stakes]
  constructor
  · intro positive
    have start : 0 ≤ Scale.share r.next.1 * (stakes items weight).sum :=
      mul_nonneg r.share_nonneg positive.le
    obtain ⟨i, drawn, holds⟩ := weighted_holds positive r
    obtain ⟨w, at_i, above⟩ := holds.positive
    rw [List.map_map, List.getElem?_map, Option.map_eq_some_iff] at at_i
    obtain ⟨b, chosen, rfl⟩ := at_i
    refine ⟨i, b, chosen, ?_, (lt_max_iff.1 above).resolve_left (lt_irrefl 0), fun j => ?_,
      (settle_eq_some_iff nonneg start).2 holds⟩
    · unfold pickWeighted?
      rw [drawn]
      dsimp only
      rw [chosen]
    · exact ⟨fun reached => reached.unique nonneg start holds, fun same => same ▸ holds⟩
  · intro none
    unfold pickWeighted? pick?
    rw [weighted_of_sum_eq_zero none, List.length_map]

/-- The weight of an item that counts between two that do not. -/
def onlyB (s : String) : ℚ :=
  if s = "b" then 1 / 3 else if s = "a" then 0 else -2

/-- One of three items counts, and it is chosen. -/
theorem pickWeighted?_answers_single : 0 < (stakes ["a", "b", "c"] onlyB).sum ∧
    (Rng.ofInt 3).pickWeighted? ["a", "b", "c"] onlyB = (some "b", (Rng.ofInt 3).next.2) := by
  have positive : 0 < (stakes ["a", "b", "c"] onlyB).sum := by
    simp [stakes, onlyB]
  obtain ⟨i, s, -, chosen, counts, -⟩ :=
    (pickWeighted?_answers ["a", "b", "c"] onlyB (Rng.ofInt 3)).1 positive
  have only : s = "b" := by
    by_contra other
    unfold onlyB at counts
    rw [if_neg other] at counts
    split_ifs at counts <;> norm_num at counts
  rw [only] at chosen
  exact ⟨positive, chosen⟩

end Rng

end AlphaFoundry
