/-
# AlphaFoundry.Proofs.Rng.Draw -- what draws return

A step wraps its product to a signed word, and still the next state is linear in the state modulo
2 ^ 31 (`step_eq`).  A draw is a state of the generator, so it is below the modulus, and what is
scaled from it stays in range: an index is below the number of items, a choice is one of them, and a
whole number drawn between two bounds lies between them.
-/
import Mathlib
import AlphaFoundry.Rng.Scaled

namespace AlphaFoundry

set_option autoImplicit false

namespace Rng

/-! ## One step -/

/-- A word has the value that it has with a sign, up to a multiple of 2 ^ 32. -/
theorem toInt_emod (x : BitVec 32) : x.toInt % 4294967296 = x.toNat := by
  have below := x.isLt
  rw [BitVec.toInt_eq_toNat_cond]
  split <;> omega

/-- The lower bits of a whole number are what it leaves modulo 2 ^ 31. -/
theorem toNat_lower (x : ℤ) :
    (BitVec.ofInt 32 x &&& 0x7fffffff#32).toNat = (x % 2147483648).toNat := by
  have mask (n : ℕ) : n &&& 2147483647 = n % 2147483648 := Nat.and_two_pow_sub_one_eq_mod n 31
  rw [BitVec.toNat_and, BitVec.toNat_ofInt]
  refine (mask _).trans ?_
  simp only [Nat.reducePow]
  omega

/-- Neither the sign of the product nor what it lost shows in the lower bits of the sum. -/
theorem step_eq (s : ℕ) : step s = (1103515245 * s + 12345) % modulus := by
  have product : (BitVec.ofNat 32 s * 1103515245#32).toInt % 4294967296
      = ((1103515245 * s : ℕ) : ℤ) % 4294967296 := by
    rw [toInt_emod, BitVec.toNat_mul, BitVec.toNat_ofNat, BitVec.toNat_ofNat]
    simp only [Nat.reducePow, Nat.reduceMod]
    omega
  rw [step, toNat_lower]
  revert product
  generalize (BitVec.ofNat 32 s * 1103515245#32).toInt = p
  generalize 1103515245 * s = t
  intro product
  show ((p + 12345) % 2147483648).toNat = (t + 12345) % 2147483648
  omega

/-! ## One draw -/

theorem next_lt (r : Rng) : r.next.1 < modulus := by
  show step r.state < modulus
  rw [step_eq]
  exact Nat.mod_lt _ (by decide)

theorem index_lt {n : Nat} (pos : 0 < n) (r : Rng) : (r.index n).1 < n := by
  show r.next.1 * n / modulus < n
  rw [Nat.div_lt_iff_lt_mul (by decide), Nat.mul_comm n]
  exact Nat.mul_lt_mul_of_pos_right r.next_lt pos

theorem mem_of_pick? {α : Type} {items : List α} {r s : Rng} {a : α}
    (picked : r.pick? items = (some a, s)) : a ∈ items :=
  List.mem_of_getElem? (Prod.mk.inj picked).1

/-- Something is chosen from a list that is not empty. -/
theorem pick?_isSome {α : Type} {items : List α} (some_item : items ≠ []) (r : Rng) :
    ∃ a, a ∈ items ∧ (r.pick? items).1 = some a := by
  have bound := index_lt (List.length_pos_iff.2 some_item) r
  refine ⟨items[(r.index items.length).1], List.getElem_mem bound, ?_⟩
  exact List.getElem?_eq_getElem bound

/-! ## Choices by weight -/

section

variable {α β : Type} [Scale α]

theorem settle_lt : ∀ {weights : List α} {threshold : α} {i : Nat},
    settle threshold weights = some i → i < weights.length
  | w :: ws, threshold, i, settled => by
      unfold settle at settled
      dsimp only at settled
      split at settled
      · obtain rfl := Option.some.inj settled
        exact Nat.zero_lt_succ _
      · obtain ⟨j, below, rfl⟩ := Option.map_eq_some_iff.1 settled
        exact Nat.succ_lt_succ (settle_lt below)

theorem weighted_lt {weights : List α} (some_weight : weights ≠ []) (r : Rng) :
    (r.weighted weights).1 < weights.length := by
  have positive := List.length_pos_iff.2 some_weight
  unfold weighted
  dsimp only
  split
  · have bound := index_lt (n := (weights.map (Scale.greater (Scale.ofNat 0))).length)
      (by simpa using positive) r
    simpa using bound
  · split
    · rename_i i settled
      simpa using settle_lt settled
    · simpa using positive

theorem pickWeighted?_isSome {items : List β} (some_item : items ≠ []) (weight : β → α) (r : Rng) :
    ∃ b ∈ items, (r.pickWeighted? items weight).1 = some b := by
  have bound : (r.weighted (items.map weight)).1 < (items.map weight).length :=
    weighted_lt (by simpa using some_item) r
  rw [List.length_map] at bound
  exact ⟨_, List.getElem_mem bound, List.getElem?_eq_getElem bound⟩

end

/-! ## Shares and ranges -/

theorem share_nonneg (r : Rng) : (0 : ℚ) ≤ Scale.share r.next.1 := by
  show (0 : ℚ) ≤ (r.next.1 : ℚ) / 2147483648
  positivity

theorem share_lt_one (r : Rng) : (Scale.share r.next.1 : ℚ) < 1 := by
  show (r.next.1 : ℚ) / 2147483648 < 1
  rw [div_lt_one (by norm_num)]
  exact_mod_cast r.next_lt

theorem between_eq (low high : ℚ) (r : Rng) :
    (r.between low high).1 = low + ⌊(Scale.share r.next.1 : ℚ) * (high - low + 1)⌋ := by
  have scaled (d : ℕ) : Scale.add low (Scale.floor (Scale.mul (Scale.share d)
      (Scale.add (Scale.sub high low) (Scale.ofNat 1)))) =
        low + ⌊(Scale.share d : ℚ) * (high - low + 1)⌋ := rfl
  exact scaled r.next.1

/-- A whole number drawn between whole bounds lies between them. -/
theorem between_int {low high : Int} (ordered : low ≤ high) (r : Rng) :
    ∃ n : Int, (r.between (low : ℚ) (high : ℚ)).1 = n ∧ low ≤ n ∧ n ≤ high := by
  have width : (0 : ℚ) ≤ (high : ℚ) - low + 1 := by
    have : (low : ℚ) ≤ high := by exact_mod_cast ordered
    linarith
  refine ⟨low + ⌊(Scale.share r.next.1 : ℚ) * (high - low + 1)⌋, ?_, ?_, ?_⟩
  · rw [between_eq]
    push_cast
    rfl
  · have : (0 : ℤ) ≤ ⌊(Scale.share r.next.1 : ℚ) * (high - low + 1)⌋ :=
      Int.floor_nonneg.2 (mul_nonneg r.share_nonneg width)
    omega
  · have scaled : (Scale.share r.next.1 : ℚ) * (high - low + 1) < ((high - low + 1 : ℤ) : ℚ) := by
      have := r.share_lt_one
      have : (low : ℚ) ≤ high := by exact_mod_cast ordered
      push_cast
      nlinarith
    have := Int.floor_lt.2 scaled
    omega

end Rng

end AlphaFoundry
