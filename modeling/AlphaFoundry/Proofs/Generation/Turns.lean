/-
# AlphaFoundry.Proofs.Generation.Turns -- the turns that the skeletons of a batch take

The history of the rotation is the list of the skeletons that the candidates so far were built from.
A candidate is built from a skeleton that has its turn behind this history once those that failed in
the same round are set aside.  So an id is repeated early exactly if the skeletons that would go
before it were all set aside, and only skeletons with a dead end ever are.
-/
import Mathlib
import AlphaFoundry.Proofs.Generation.DryRuns
import AlphaFoundry.Proofs.Generation.Spread

namespace AlphaFoundry

set_option autoImplicit false

namespace Batch

open Build Generation

variable {p : Batch} {history : List String} {b : Bench}

/-! ## Benches in turn -/

variable (p) in
/-- The rotation behind some commits. -/
def turns (history : List String) : Rotation ℚ :=
  { p.bench.top with history }

variable (p history b) in
/-- A bench behind candidates from the skeletons of a history, the latest first. -/
structure InTurn : Prop where
  top : b.top = p.turns history
  sub : b.sub.ids = Skeleton.basics.map Skeleton.id

theorem bench_inTurn : p.InTurn [] p.bench :=
  ⟨rfl, rfl⟩

variable (p) in
/-- The choice that a candidate is built by. -/
def choice (unique : (p.skeletons.map Skeleton.id).Nodup) (history : List String) : Choice where
  skeletons := p.skeletons
  unique := unique
  can s := s.plan.isBuildable p.catalog p.signal = true
  may s := s.plan.neverFails p.catalog p.signal = false
  offered failed s := s.id ∈ (p.turns history).eligible failed
  bench b := b.fields.catalog = p.catalog ∧ p.InTurn history b
  next s b := p.InTurn (s.id :: history) b

section

variable (unique : (p.skeletons.map Skeleton.id).Nodup)

theorem choice_steady : Steady p.catalog (p.choice unique history).bench where
  catalog _ bench := bench.1
  moves _ _ _ bench same := ⟨same, bench.2.top, bench.2.sub⟩

theorem choice_isMadeBy : (p.choice unique history).IsMadeBy p.topChooser := by
  refine Choice.isMadeBy_rotating (choice_steady unique).drifts ?_ ?_ ?_
  · exact fun b bench id => by rw [bench.2.top]; rfl
  · intro b failed s bench turn
    rw [bench.2.top] at turn
    exact turn
  · exact fun s b bench => ⟨congrArg (Rotation.commit · s.id) bench.2.top, bench.2.sub⟩

theorem skeleton_decides (s : Skeleton) :
    Decides (p.choice unique history).bench (s.plan.isBuildable p.catalog p.signal = true)
      (s.plan.neverFails p.catalog p.signal = false)
      (Build.skeleton p.catalog p.literalRange (subFormula p.catalog p.literalRange subChooser) s
        p.signal) := by
  have steady : Steady p.catalog (p.choice unique history).bench := choice_steady unique
  refine Build.skeleton_decides steady p.literalRange (fun target => ?_) s p.signal
  refine subFormula_decides steady p.literalRange ?_
  refine Choice.isMadeBy_rotating (k := basicChoice p.catalog _ target) steady.drifts ?_ ?_ ?_
  · exact fun b bench id => by rw [bench.2.sub]; rfl
  · exact fun _ _ _ _ _ => trivial
  · exact fun s b bench => ⟨bench.1, bench.2.top, bench.2.sub⟩

end

/-! ## One candidate -/

variable (p) in
/-- The rounds in which a candidate is built. -/
def roundsLog : Build (List (List String) × Option (Skeleton × Expr)) := do
  modify fun b => { b with fields := p.picker }
  let sub := subFormula p.catalog p.literalRange subChooser
  p.topChooser.roundsLog (fun s => Build.skeleton p.catalog p.literalRange sub s p.signal)
    p.skeletons.length Chooser.maxRounds []

variable (p b) in
/-- The skeletons that failed in the round that a candidate was built in, the latest first. -/
def failedAt : List String :=
  match p.roundsLog b with
  | .ok (log, _) _ => log.headD []
  | .error _ _ => []

theorem buildInner_eq : p.buildInner = p.roundsLog >>= fun out => match out.2 with
    | some built => pure built
    | none => throw (.unavailable ("|".intercalate (p.skeletons.map Skeleton.id))
        (.everything p.signal)) := by
  unfold buildInner roundsLog
  dsimp only
  rw [Chooser.build_eq, bind_assoc]
  rfl

theorem roundsLog_ensures (unique : (p.skeletons.map Skeleton.id).Nodup) :
    Ensures (p.InTurn history)
      (fun out b => (p.choice unique history).Failed (out.1.headD []) ∧
        (p.choice unique history).Ends (out.1.headD []) out.2 b)
      (fun _ _ => False) p.roundsLog := by
  have fresh : Ensures (p.InTurn history) (fun _ => (p.choice unique history).bench)
      (fun _ _ => False) (modify fun b : Bench => { b with fields := p.picker }) :=
    .modify fun b turn => ⟨rfl, turn.top, turn.sub⟩
  exact fresh.bind fun _ => Choice.roundsLog_ensures (choice_isMadeBy unique)
    (fun s _ => skeleton_decides unique s) _ []

theorem failedAt_failed (unique : (p.skeletons.map Skeleton.id).Nodup) (turn : p.InTurn history b) :
    (p.choice unique history).Failed (p.failedAt b) := by
  have ends := roundsLog_ensures unique b turn
  unfold failedAt
  cases result : p.roundsLog b with
  | ok out b' =>
      rw [result] at ends
      exact ends.1
  | error fault b' => exact .nil

/-- A candidate is built from a skeleton that has its turn when those that failed are set aside, or
all skeletons may fail. -/
theorem buildInner_ends (unique : (p.skeletons.map Skeleton.id).Nodup) (turn : p.InTurn history b) :
    Meets
      (fun built b' => (built.1 ∈ p.skeletons ∧ built.1.plan.isBuildable p.catalog p.signal = true ∧
        built.1.id ∈ (p.turns history).eligible (p.failedAt b)) ∧ p.InTurn (built.1.id :: history) b')
      (fun fault _ => fault = .unavailable ("|".intercalate (p.skeletons.map Skeleton.id))
        (.everything p.signal) ∧ ∀ s ∈ p.skeletons, s.plan.neverFails p.catalog p.signal = false)
      (p.buildInner b) := by
  have ends := roundsLog_ensures unique b turn
  rw [buildInner_eq, failedAt]
  cases result : p.roundsLog b with
  | error fault b' =>
      rw [result] at ends
      exact ends.elim
  | ok out b' =>
      rw [result] at ends
      rw [bind_of_ok result]
      obtain ⟨log, _ | built⟩ := out
      · exact ⟨rfl, ends.2.1⟩
      · exact ends.2

/-! ## All candidates -/

/-- All candidates come out, or a fault ends them where every skeleton may fail. -/
theorem yieldFrom_ends (unique : (p.skeletons.map Skeleton.id).Nodup) :
    ∀ (n number : ℕ) (history : List String) (b : Bench), p.InTurn history b →
      ((p.yieldFrom n number b).fault = none ∧ (p.yieldFrom n number b).candidates.length = n) ∨
      ((p.yieldFrom n number b).fault = some (.unavailable
          ("|".intercalate (p.skeletons.map Skeleton.id)) (.everything p.signal)) ∧
        (p.yieldFrom n number b).candidates.length < n ∧
        ∀ s ∈ p.skeletons, s.plan.neverFails p.catalog p.signal = false)
  | 0, _, _, _, _ => .inl ⟨rfl, rfl⟩
  | n + 1, number, history, b, turn => by
      have ends := buildInner_ends unique turn
      rw [yieldFrom]
      cases result : p.buildInner b with
      | error fault b' =>
          rw [result] at ends
          obtain ⟨rfl, may⟩ := ends
          exact .inr ⟨rfl, Nat.succ_pos n, may⟩
      | ok built b' =>
          rw [result] at ends
          rcases yieldFrom_ends unique n (number + 1) _ b' ends.2 with
            ⟨faultless, length⟩ | ⟨fault, length, may⟩
          · exact .inl ⟨faultless, congrArg Nat.succ length⟩
          · exact .inr ⟨fault, Nat.succ_lt_succ length, may⟩

theorem yield_ends (foreseen : Foreseen p.catalog p.signal (pool p.tier) p.skeletons) :
    (p.yield.fault = none ∧ p.yield.candidates.length = p.count) ∨
    (p.yield.fault = some (.unavailable
        ("|".intercalate (p.skeletons.map Skeleton.id)) (.everything p.signal)) ∧
      p.yield.candidates.length < p.count ∧
      ∀ s ∈ pool p.tier, s.plan.neverFails p.catalog p.signal = false) := by
  rcases yieldFrom_ends foreseen.unique p.count 1 [] p.bench bench_inTurn with
    all | ⟨fault, length, may⟩
  · exact .inl all
  · refine .inr ⟨fault, length, fun s member => ?_⟩
    -- What never fails was planned.
    by_contra never
    have never := eq_true_of_ne_false never
    rw [may s (foreseen.sure s member never)] at never
    cases never

/-- One skeleton that never fails is enough. -/
theorem yield_complete (foreseen : Foreseen p.catalog p.signal (pool p.tier) p.skeletons)
    {s : Skeleton} (member : s ∈ pool p.tier)
    (never : s.plan.neverFails p.catalog p.signal = true) :
    p.yield.fault = none ∧ p.yield.candidates.length = p.count := by
  rcases yield_ends foreseen with all | ⟨-, -, may⟩
  · exact all
  · rw [may s member] at never
    cases never

variable (p) in
/-- The skeletons of the candidates that come out. -/
def order : List String :=
  p.yield.candidates.map Candidate.skeletonId

variable (p) in
/-- The skeletons that failed in the round that a candidate was built in, by its index. -/
def setAside (i : ℕ) : List String :=
  p.failedAt (p.after i)

variable {i : ℕ} {id : String}

theorem exists_build (at_i : p.order[i]? = some id) :
    ∃ s inner, p.buildInner (p.after i) = .ok (s, inner) (p.after (i + 1)) ∧ s.id = id := by
  rw [order, List.getElem?_map] at at_i
  obtain ⟨k, yielded, rfl⟩ := Option.map_eq_some_iff.1 at_i
  obtain ⟨s, inner, built, rfl⟩ := getElem?_yieldFrom p.count 1 i 0 yielded
  rw [Nat.zero_add] at built
  exact ⟨s, inner, built, rfl⟩

section

variable (unique : (p.skeletons.map Skeleton.id).Nodup)
include unique

theorem after_inTurn : ∀ i ≤ p.order.length, p.InTurn (p.order.take i).reverse (p.after i)
  | 0, _ => bench_inTurn
  | i + 1, within => by
      have at_i : p.order[i]? = some p.order[i] := List.getElem?_eq_getElem within
      obtain ⟨s, inner, built, same⟩ := exists_build at_i
      have ends := buildInner_ends unique (after_inTurn i (by omega))
      rw [built] at ends
      rw [List.take_succ_eq_append_getElem within, List.reverse_append, ← same]
      exact ends.2

/-- Only skeletons with a dead end are set aside. -/
theorem exists_of_setAside (within : i ≤ p.order.length) (aside : id ∈ p.setAside i) :
    ∃ s ∈ p.skeletons, s.id = id ∧ s.plan.neverFails p.catalog p.signal = false :=
  (failedAt_failed unique (after_inTurn unique i within)).may id aside

theorem mem_eligible_of_order (at_i : p.order[i]? = some id) :
    (∃ s ∈ p.skeletons, s.id = id ∧ s.plan.isBuildable p.catalog p.signal = true) ∧
      id ∈ (p.turns (p.order.take i).reverse).eligible (p.setAside i) := by
  obtain ⟨within, -⟩ := List.getElem?_eq_some_iff.1 at_i
  obtain ⟨s, inner, built, rfl⟩ := exists_build at_i
  have ends := buildInner_ends unique (after_inTurn unique i within.le)
  rw [built] at ends
  obtain ⟨⟨member, can, turn⟩, -⟩ := ends
  exact ⟨⟨s, member, rfl, can⟩, turn⟩

/-- A skeleton that was used comes again only if all that were not are set aside. -/
theorem setAside_of_used (at_i : p.order[i]? = some id) (used : id ∈ p.order.take i) {s : Skeleton}
    (member : s ∈ p.skeletons) (unused : s.id ∉ p.order.take i) : s.id ∈ p.setAside i := by
  obtain ⟨-, turn⟩ := mem_eligible_of_order unique at_i
  obtain ⟨-, spent, -⟩ := (Rotation.mem_eligible rfl).1 turn
  exact spent (List.mem_reverse.2 used) s.id (List.mem_map_of_mem member)
    fun later => unused (List.mem_reverse.1 later)

/-- The last skeleton comes again only if all others are set aside. -/
theorem setAside_of_last (last : p.order[i]? = some id) (again : p.order[i + 1]? = some id)
    {s : Skeleton} (member : s ∈ p.skeletons) (other : s.id ≠ id) : s.id ∈ p.setAside (i + 1) := by
  obtain ⟨-, turn⟩ := mem_eligible_of_order unique again
  obtain ⟨-, -, alone⟩ := (Rotation.mem_eligible rfl).1 turn
  refine alone ?_ s.id (List.mem_map_of_mem member) other
  obtain ⟨within, rfl⟩ := List.getElem?_eq_some_iff.1 last
  show (p.order.take (i + 1)).reverse.head? = _
  rw [List.take_succ_eq_append_getElem within, List.reverse_append]
  rfl

theorem exists_left (at_i : p.order[i]? = some id) :
    ∃ s ∈ p.skeletons, s.id = id ∧ s.id ∉ p.setAside i := by
  obtain ⟨⟨s, member, rfl, -⟩, turn⟩ := mem_eligible_of_order unique at_i
  exact ⟨s, member, rfl, (Rotation.mem_of_mem_eligible turn).2⟩

/-! ## Repetitions -/

/-- No two neighbours are from the same skeleton exactly if, behind each candidate, some skeleton
other than its own was not set aside. -/
theorem order_isChain_iff : p.order.IsChain (· ≠ ·) ↔
    ∀ i last, p.order[i]? = some last → i + 1 < p.order.length →
      ∃ s ∈ p.skeletons, s.id ≠ last ∧ s.id ∉ p.setAside (i + 1) := by
  rw [List.isChain_iff_getElem]
  constructor
  · intro apart i last at_i more
    obtain ⟨within, rfl⟩ := List.getElem?_eq_some_iff.1 at_i
    obtain ⟨s, member, same, left⟩ := exists_left unique (List.getElem?_eq_getElem more)
    exact ⟨s, member, fun repeated => apart i more (repeated.symm.trans same), left⟩
  · intro other i more repeated
    have at_i : p.order[i]? = some p.order[i] := List.getElem?_eq_getElem (by omega)
    have again : p.order[i + 1]? = some p.order[i] := by
      rw [repeated]
      exact List.getElem?_eq_getElem more
    obtain ⟨s, member, different, left⟩ := other i _ at_i more
    exact left (setAside_of_last unique at_i again member different)

end

variable (p) in
/-- No skeleton comes again before all of them came. -/
def Exhausts : Prop :=
  ∀ i id, p.order[i]? = some id → id ∈ p.order.take i → ∀ s ∈ p.skeletons, s.id ∈ p.order.take i

variable (unique : (p.skeletons.map Skeleton.id).Nodup)
include unique

/-- That is so exactly if, wherever a skeleton is still unused, an unused one was not set aside. -/
theorem exhausts_iff : p.Exhausts ↔
    ∀ i < p.order.length, (∃ s ∈ p.skeletons, s.id ∉ p.order.take i) →
      ∃ s ∈ p.skeletons, s.id ∉ p.order.take i ∧ s.id ∉ p.setAside i := by
  constructor
  · rintro exhausts i within ⟨t, member_t, unused⟩
    have at_i := List.getElem?_eq_getElem within
    obtain ⟨s, member, same, left⟩ := exists_left unique at_i
    refine ⟨s, member, fun used => unused ?_, left⟩
    exact exhausts i _ at_i (same ▸ used) t member_t
  · intro fresh i id at_i used t member_t
    by_contra unused
    obtain ⟨within, -⟩ := List.getElem?_eq_some_iff.1 at_i
    obtain ⟨s, member, unused, left⟩ := fresh i within ⟨t, member_t, unused⟩
    exact left (setAside_of_used unique at_i used member unused)

/-- Then the first candidates, as many as there are skeletons, are from different ones. -/
theorem Exhausts.nodup (exhausts : p.Exhausts) : (p.order.take p.skeletons.length).Nodup := by
  refine List.pairwise_iff_getElem.2 fun i j at_i at_j before same => ?_
  simp only [List.getElem_take] at same
  rw [List.length_take, lt_min_iff] at at_i at_j
  have used : p.order[j] ∈ p.order.take j := by
    rw [← same]
    exact List.mem_take_iff_getElem.2 ⟨i, by omega, rfl⟩
  have all := exhausts j _ (List.getElem?_eq_getElem at_j.2) used
  have listed : p.skeletons.map Skeleton.id ⊆ p.order.take j := by
    intro id mapped
    obtain ⟨s, member, rfl⟩ := List.mem_map.1 mapped
    exact all s member
  have few := (List.subperm_of_subset unique listed).length_le
  rw [List.length_map, List.length_take] at few
  omega

section

variable (never : ∀ s ∈ p.skeletons, s.plan.neverFails p.catalog p.signal = true)
include never

theorem setAside_eq_nil (within : i ≤ p.order.length) : p.setAside i = [] := by
  refine List.eq_nil_iff_forall_not_mem.2 fun id aside => ?_
  obtain ⟨s, member, -, fails⟩ := exists_of_setAside unique within aside
  rw [never s member] at fails
  cases fails

theorem exhausts_of_neverFails : p.Exhausts := by
  refine (exhausts_iff unique).2 fun i within ⟨s, member, unused⟩ => ⟨s, member, unused, ?_⟩
  rw [setAside_eq_nil unique never within.le]
  exact List.not_mem_nil

theorem order_isChain_of_neverFails (two : 2 ≤ p.skeletons.length) : p.order.IsChain (· ≠ ·) := by
  refine (order_isChain_iff unique).2 fun i last _ more => ?_
  rw [setAside_eq_nil unique never more.le]
  -- Of two skeletons, one is not the last.
  obtain ⟨s, t, rest, same⟩ : ∃ s t rest, p.skeletons = s :: t :: rest := by
    match p.skeletons, two with
    | s :: t :: rest, _ => exact ⟨s, t, rest, rfl⟩
  rw [same] at unique ⊢
  have apart : s.id ≠ t.id := fun repeated =>
    (List.nodup_cons.1 unique).1 (repeated ▸ List.mem_cons_self)
  by_cases first : s.id = last
  · exact ⟨t, by simp, fun second => apart (first.trans second.symm), List.not_mem_nil⟩
  · exact ⟨s, by simp, first, List.not_mem_nil⟩

end

omit unique

/-- Only skeletons with a dead end are set aside.  Exactly where this leaves no other skeleton, one
follows itself, and exactly where it leaves no unused one, one comes again too early. -/
theorem order_takes_turns {c : Catalog} {tier : String} {count : Float} {o : Options}
    (made : (plan c tier count o).result = .ok p) :
    (∀ i ≤ p.order.length, ∀ id ∈ p.setAside i,
      ∃ s ∈ p.skeletons, s.id = id ∧ s.plan.neverFails c p.signal = false) ∧
    (p.order.IsChain (· ≠ ·) ↔
      ∀ i last, p.order[i]? = some last → i + 1 < p.order.length →
        ∃ s ∈ p.skeletons, s.id ≠ last ∧ s.id ∉ p.setAside (i + 1)) ∧
    (p.Exhausts ↔
      ∀ i < p.order.length, (∃ s ∈ p.skeletons, s.id ∉ p.order.take i) →
        ∃ s ∈ p.skeletons, s.id ∉ p.order.take i ∧ s.id ∉ p.setAside i) ∧
    ((∀ s ∈ p.skeletons, s.plan.neverFails c p.signal = true) →
      p.Exhausts ∧ (2 ≤ p.skeletons.length → p.order.IsChain (· ≠ ·))) := by
  have planned := planned_of_plan made
  have unique := (foreseen_of_plan made).1.unique
  rw [← planned.catalog]
  refine ⟨fun i within id => exists_of_setAside unique within, order_isChain_iff unique,
    exhausts_iff unique, fun never => ⟨exhausts_of_neverFails unique never, ?_⟩⟩
  exact order_isChain_of_neverFails unique never

theorem order_takes_turns_small : ∃ p, (plan Catalog.small "creative" 7 {}).result = .ok p ∧
    p.order.length = 7 ∧ p.Exhausts ∧ p.order.IsChain (· ≠ ·) := by
  have computed : ((plan Catalog.small "creative" 7 {}).result.toOption.map fun p =>
      (p.order.length, decide (2 ≤ p.skeletons.length),
        p.skeletons.all fun s => s.plan.neverFails Catalog.small p.signal))
      = some (7, true, true) := by
    decide +kernel
  obtain ⟨p, planned, computed⟩ := Option.map_eq_some_iff.1 computed
  obtain ⟨length, two, never⟩ := by simpa using computed
  have made := except_toOption_eq_some.1 planned
  obtain ⟨-, -, -, turns⟩ := order_takes_turns made
  obtain ⟨exhausts, apart⟩ := turns never
  exact ⟨p, made, length, exhausts, apart two⟩

/-- On `unfed` an operator that nothing feeds may be drawn for each of the four skeletons.  Here the
second candidate is from the first one's skeleton, since the three others were set aside. -/
theorem order_repeats : ((plan unfed "creative" 2 { seed := 7 }).result.toOption.map fun p =>
    (p.skeletons.map Skeleton.id, p.order, p.setAside 1))
      = some (["pair", "ranked_pair", "chain3", "ranked_chain3"], ["ranked_pair", "ranked_pair"],
        ["chain3", "ranked_chain3", "pair"]) := by
  decide +kernel

end Batch

end AlphaFoundry
