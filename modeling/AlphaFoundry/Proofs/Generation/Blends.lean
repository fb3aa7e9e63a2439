/-
# AlphaFoundry.Proofs.Generation.Blends -- how blends are weighed

A blend draws a weight inside its range and rounds it to two places afterwards.  Its literals are
therefore two numbers of hundredths that add up to a hundred, behind one operator each that
multiplies or divides; but the first is inside the range only as far as the range is made of
hundredths.  A range whose ends round to something else than 0 and 1 keeps both literals away from
them (`Weighed.interior`).  One that does not may weigh a formula by nothing, or divide it by zero.
-/
import AlphaFoundry.Proofs.Generation.Literals

namespace AlphaFoundry

set_option autoImplicit false

/-! ## The literals of a formula -/

namespace Expr

/-- The literals in pre-order. -/
def literals (e : Expr) : List Float :=
  e.visits.filterMap fun v =>
    match v.label with
    | .literal x => some x
    | _ => none

@[simp] theorem literals_field (id : String) : (field id).literals = [] := by
  simp [literals, visits, visitsFrom]

@[simp] theorem literals_literal (x : Float) : (literal x).literals = [x] := by
  simp [literals, visits, visitsFrom]

@[simp] theorem literals_apply (operator : String) (es : List Expr) (window : Option Float) :
    (apply operator es window).literals = es.flatMap literals :=
  filterMap_visits_apply (fun _ _ _ => rfl) (fun v label => by simp [label]) es

theorem literals_eq_nil {e : Expr} (bare : e.All NotLiteral) : e.literals = [] := by
  induction e using Expr.induction with
  | field id => simp
  | literal x => exact bare.root.elim
  | apply operator es window ih =>
      obtain ⟨-, below⟩ := all_apply.1 bare
      simpa using fun e member => ih e member (below e member)

end Expr

/-! ## Weights -/

open Number

/-- How blends are weighed if the weight is drawn from a range: by a number of hundredths, and what
is left of a hundred of them. -/
structure Weighed (range : LiteralRange) (h : ℕ) : Prop where
  le : h ≤ 100
  /-- What is drawn is inside the range, and rounded afterwards. -/
  drawn : ∃ r : Rng, range.min ≤ (r.uniform range.min range.max).1 ∧
    (r.uniform range.min range.max).1 ≤ range.max ∧
    roundPlaces 2 (r.uniform range.min range.max).1 = hundredth h
  /-- The weight is between the ends as they are rounded. -/
  least : roundPlaces 2 range.min ≤ hundredth h
  most : hundredth h ≤ roundPlaces 2 range.max
  /-- It is between the ends themselves if they are hundredths. -/
  inside : IsHundredth range.min → IsHundredth range.max →
    range.min ≤ hundredth h ∧ hundredth h ≤ range.max
  /-- It and its complement are strictly between 0 and 1 if no end is rounded to one of these. -/
  interior : 0 < roundPlaces 2 range.min → roundPlaces 2 range.max < 1 →
    ∀ x ∈ [hundredth h, hundredth (100 - h)], 0 < x ∧ x < 1

theorem hundredth_pos {k : ℕ} (small : k ≤ 100) : 0 < hundredth k ↔ 0 < k := by
  have zero : hundredth 0 = 0 := by decide +kernel
  rcases k.eq_zero_or_pos with rfl | positive
  · exact iff_of_false (by decide +kernel) (lt_irrefl 0)
  · exact iff_of_true (zero ▸ hundredth_lt positive small) positive

theorem hundredth_lt_one {k : ℕ} (small : k ≤ 100) : hundredth k < 1 ↔ k < 100 := by
  have one : hundredth 100 = 1 := by decide +kernel
  rcases small.eq_or_lt with rfl | less
  · exact iff_of_false (by decide +kernel) (lt_irrefl 100)
  · exact iff_of_true (one ▸ hundredth_lt less le_rfl) less

theorem Number.IsHundredth.roundPlaces_eq {x : Float} (is : IsHundredth x) :
    roundPlaces 2 x = x := by
  obtain ⟨k, small, rfl⟩ := is
  exact roundPlaces_hundredth small

/-- Rounding keeps what is drawn inside a range between the ends as they are rounded. -/
theorem weighed_of_uniform {range : LiteralRange}
    (valid : Generation.LiteralRange.isValid range = true) (r : Rng) :
    ∃ h, Weighed range h ∧ roundPlaces 2 (r.uniform range.min range.max).1 = hundredth h := by
  obtain ⟨a, b, low, high, positive, ordered, below⟩ := exists_values_of_isValid valid
  obtain ⟨w, value, least, most⟩ := uniform_between low high positive.le ordered r
  -- The three numbers of hundredths are in the order of what is rounded.
  have lowest := roundPlaces_eq low positive.le (ordered.trans below.le)
  have drawn := roundPlaces_eq value (positive.le.trans least) (most.trans below.le)
  have highest := roundPlaces_eq high (positive.le.trans ordered) below.le
  have few := floor_hundredths_le (positive.le.trans ordered) below.le
  set i := ⌊a * 100 + 1 / 2⌋₊
  set h := ⌊w * 100 + 1 / 2⌋₊
  set j := ⌊b * 100 + 1 / 2⌋₊
  have first : i ≤ h := Nat.floor_mono (by linarith)
  have second : h ≤ j := Nat.floor_mono (by linarith)
  have above : roundPlaces 2 range.min ≤ hundredth h := lowest ▸ hundredth_le first (by omega)
  have under : hundredth h ≤ roundPlaces 2 range.max := highest ▸ hundredth_le second few
  refine ⟨h, ?_, drawn⟩
  constructor
  case le => omega
  case drawn =>
    refine ⟨r, (le_iff low value).2 ?_, (le_iff value high).2 ?_, drawn⟩
    · exact_mod_cast least
    · exact_mod_cast most
  case least => exact above
  case most => exact under
  case inside =>
    intro isLow isHigh
    rw [isLow.roundPlaces_eq] at above
    rw [isHigh.roundPlaces_eq] at under
    exact ⟨above, under⟩
  case interior =>
    intro aboveZero belowOne
    rw [lowest, hundredth_pos (by omega)] at aboveZero
    rw [highest, hundredth_lt_one few] at belowOne
    simp only [List.forall_mem_cons, List.not_mem_nil, false_imp_iff, implies_true, and_true]
    rw [hundredth_pos (by omega), hundredth_pos (by omega), hundredth_lt_one (by omega),
      hundredth_lt_one (by omega)]
    omega

/-! ## Blends -/

/-- Two formulas without literals, each multiplied with or divided by one of two hundredths that add
up to one. -/
def Blends (c : Catalog) (h : ℕ) (e : Expr) : Prop :=
  ∃ top ∈ c.compatible Skeleton.additive, ∃ op₁ ∈ c.compatible Skeleton.multiplicative,
    ∃ op₂ ∈ c.compatible Skeleton.multiplicative, ∃ e₁ e₂ window window₁ window₂,
      e₁.literals = [] ∧ e₂.literals = [] ∧
      e = .apply top.id [.apply op₁.id [e₁, .literal (hundredth h)] window₁,
        .apply op₂.id [e₂, .literal (hundredth (100 - h))] window₂] window

theorem Blends.literals {c : Catalog} {h : ℕ} {e : Expr} (blends : Blends c h e) :
    e.literals = [hundredth h, hundredth (100 - h)] := by
  obtain ⟨top, -, op₁, -, op₂, -, e₁, e₂, window, window₁, window₂, bare₁, bare₂, rfl⟩ := blends
  simp [bare₁, bare₂]

namespace Build

variable {c : Catalog} {range : LiteralRange}

theorem blendWeight_weighed (valid : Generation.LiteralRange.isValid range = true) :
    Delivers c (fun w => ∃ h, Weighed range h ∧ w = hundredth h) (blendWeight range) :=
  Delivers.bind (P := fun w => ∃ h, Weighed range h ∧ roundPlaces 2 w = hundredth h)
    (.draw fun r => weighed_of_uniform valid r) fun _ weighed => .pure weighed

/-- Asking for an output is asking for more. -/
theorem mem_compatible {q : Catalog.Query} {target : List String} {op : Operator}
    (any : q.output = none) (member : op ∈ c.compatible { q with output := some target }) :
    op ∈ c.compatible q := by
  obtain ⟨listed, met⟩ := List.mem_filter.1 member
  refine List.mem_filter.2 ⟨listed, ?_⟩
  simp only [Catalog.Query.isMetBy, Bool.and_eq_true] at met ⊢
  obtain ⟨⟨asked, -⟩, accepts⟩ := met
  exact ⟨⟨asked, by simp [any, Catalog.Query.meets]⟩, accepts⟩

/-- The one skeleton that weighs. -/
theorem plan_of_id : ∀ s ∈ Skeleton.all, s.id = "weighted_blend" → s.plan = .blended
    (.join Skeleton.additive (.join Skeleton.multiplicative .sub .weight)
      (.join Skeleton.multiplicative .sub .complement)) := by
  simp [Skeleton.all, Skeleton.basics, Skeleton.creatives]

theorem skeleton_blends (valid : Generation.LiteralRange.isValid range = true)
    {sub : List String → Build Expr} (subs : ∀ target, Delivers c (·.literals = []) (sub target))
    {s : Skeleton} (known : s ∈ Skeleton.all) (target : List String)
    (blend : s.id = "weighted_blend") :
    Delivers c (fun e => ∃ h, Weighed range h ∧ Blends c h e) (skeleton c range sub s target) := by
  unfold skeleton
  rw [plan_of_id s known blend]
  refine (blendWeight_weighed valid).bind fun weight weighed => ?_
  obtain ⟨h, weighed, rfl⟩ := weighed
  refine (shape_follows s.id _ subs _ target).mono fun e follows => ⟨h, weighed, ?_⟩
  obtain ⟨top, asked, _, _, window, first, second, -, rfl⟩ := follows
  obtain ⟨op₁, asked₁, e₁, _, window₁, bare₁, ⟨-, rfl⟩, -, rfl⟩ := first
  obtain ⟨op₂, asked₂, e₂, _, window₂, bare₂, ⟨-, rfl⟩, -, rfl⟩ := second
  rw [roundPlaces_complement weighed.le]
  exact ⟨top, mem_compatible rfl asked, op₁, mem_compatible rfl asked₁, op₂,
    mem_compatible rfl asked₂, e₁, e₂, window, window₁, window₂, bare₁, bare₂, rfl⟩

end Build

/-! ## Candidates -/

namespace Batch

open Build Generation

variable {c : Catalog} {tier : String} {count : Float} {o : Options} {p : Batch} {k : Candidate}

theorem buildInner_blends (planned : Planned c tier count o p) :
    Delivers p.catalog (fun built => built.1.id = "weighted_blend" →
      ∃ h, Weighed p.literalRange h ∧ Blends p.catalog h built.2) p.buildInner := by
  refine Delivers.bind (P := fun _ => True) (.modify fun _ _ => rfl) fun _ _ => ?_
  refine (Chooser.build_delivers (P := fun s e => s.id = "weighted_blend" →
    ∃ h, Weighed p.literalRange h ∧ Blends p.catalog h e) (topChooser_offers p.catalog) ?_
    p.signal).mono fun _ built => built.2
  intro s member
  have known := Skeleton.mem_all_of_mem_pool (planned.skeletons s member)
  have subs := subFormula_delivers planned.range (subChooser_offers p.catalog)
  by_cases blend : s.id = "weighted_blend"
  · have bare (target : List String) : Delivers p.catalog (·.literals = [])
        (subFormula p.catalog p.literalRange subChooser target) :=
      (subs target).mono fun _ filled => Expr.literals_eq_nil (filled.bare rfl)
    exact (skeleton_blends planned.range bare known p.signal blend).mono fun _ blends _ => blends
  · exact (skeleton_delivers planned.range subs (Skeleton.all_fit s known).1 p.signal).mono
      fun _ _ same => absurd same blend

/-- Every blend that a batch yields carries two literals, which weigh formulas without literals.
They are hundredths that add up to one, the first of them drawn inside the range and rounded. -/
theorem yield_blends (made : (plan c tier count o).result = .ok p)
    (yielded : k ∈ p.yield.candidates) (blend : k.skeletonId = "weighted_blend") :
    ∃ h, Weighed o.literalRange h ∧ k.root.literals = [hundredth h, hundredth (100 - h)] ∧
      ∃ e, Blends c h e ∧ (k.root = e ∨ ∃ w, p.wrapping = some w ∧ k.root = w.wrap e) := by
  have planned := planned_of_plan made
  obtain ⟨number, ⟨s, e⟩, blends, rfl⟩ :=
    mem_yieldFrom (buildInner_blends planned) p.count 1 p.bench rfl yielded
  obtain ⟨h, weighed, blends⟩ := blends blend
  rw [planned.literalRange] at weighed
  rw [planned.catalog] at blends
  have literals := blends.literals
  refine ⟨h, weighed, ?_, e, blends, ?_⟩
  · unfold candidate
    dsimp only
    split
    · simp [Wrapping.wrap, literals]
    · exact literals
  · unfold candidate
    dsimp only
    split
    · rename_i w wrapped
      exact .inr ⟨w, wrapped, rfl⟩
    · exact .inl rfl

/-- Two fields that can be added, and divided by numbers. -/
def dividing : Catalog :=
  ⟨{ domains := ["real"]
     fields := [⟨"close", "price", "real", none⟩, ⟨"volume", "volume", "real", none⟩]
     operators := [
      { id := "rank", category := .crossSectional, arity := .unary, inputs := [["real"]],
        output := "real", template := "rank(\x7b0\x7d)" },
      { id := "add", category := .arithmetic, arity := .binary, inputs := [["real"], ["real"]],
        output := "real", template := "add(\x7b0\x7d, \x7b1\x7d)", tags := ["additive"] },
      { id := "divide", category := .arithmetic, arity := .binary, inputs := [["real"], ["real"]],
        output := "real", template := "divide(\x7b0\x7d, \x7b1\x7d)",
        tags := ["multiplicative"] }] },
    by decide +kernel⟩

theorem exists_candidate_of_id {id : String} (yields : ((plan c tier count o).result.toOption.map
      fun p => p.yield.candidates.map Candidate.skeletonId) = some [id]) :
    ∃ p k, (plan c tier count o).result = .ok p ∧ k ∈ p.yield.candidates ∧ k.skeletonId = id := by
  obtain ⟨p, planned, ids⟩ := Option.map_eq_some_iff.1 yields
  obtain ⟨k, single, same⟩ := List.map_eq_singleton_iff.1 ids
  exact ⟨p, k, except_toOption_eq_some.1 planned, by simp [single], same⟩

/-- A range whose ends are hundredths holds the weights that are drawn from it. -/
theorem yield_blends_dividing : ∃ p k,
    (plan dividing "creative" 1 { seed := 66 }).result = .ok p ∧ k ∈ p.yield.candidates ∧
      k.skeletonId = "weighted_blend" ∧ ∃ h, k.root.literals = [hundredth h, hundredth (100 - h)] ∧
        0.4 ≤ hundredth h ∧ hundredth h ≤ 0.6 := by
  have yields : ((plan dividing "creative" 1 { seed := 66 }).result.toOption.map fun p =>
      p.yield.candidates.map Candidate.skeletonId) = some ["weighted_blend"] := by
    decide +kernel
  obtain ⟨p, k, made, yielded, blend⟩ := exists_candidate_of_id yields
  obtain ⟨h, weighed, literals, -⟩ := yield_blends made yielded blend
  have low : IsHundredth 0.4 := ⟨40, by decide, by decide +kernel⟩
  have high : IsHundredth 0.6 := ⟨60, by decide, by decide +kernel⟩
  exact ⟨p, k, made, yielded, blend, h, literals, weighed.inside low high⟩

/-- A weight drawn between a thousandth and a hundredth may be rounded to none, and then the formula
that it weighs is divided by zero. -/
theorem yield_weightless :
    Generation.LiteralRange.isValid { min := 0.001, max := 0.01 } = true ∧
    ((plan dividing "creative" 1
        { seed := 66, literalRange := { min := 0.001, max := 0.01 } }).result.toOption.bind
      fun p => p.yield.candidates[0]?.map fun k =>
        (k.skeletonId, k.root.literals, k.root.render dividing))
      = some ("weighted_blend", [0, 1],
        "add(divide(divide(volume, close), 0), divide(rank(close), 1))") := by
  decide +kernel

end Batch

end AlphaFoundry
