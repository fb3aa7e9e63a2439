/-
# AlphaFoundry.Proofs.Generation.Rounds -- what the rounds of a chooser leave behind

A round forgets which skeletons failed in it once it is over.  `roundLog` and `roundsLog` are the
same rounds, and also tell that.  A round fails skeletons that may fail, each at most once, and ends
without a result only when it has failed all of them; that is the invariant of its recursion, which
takes as many steps as there are skeletons.
-/
import Mathlib
import AlphaFoundry.Proofs.Generation.Buildable
import AlphaFoundry.Proofs.Generation.Rotation
import AlphaFoundry.Proofs.Generation.Supply

namespace AlphaFoundry

set_option autoImplicit false

namespace Build

namespace Chooser

/-! ## Logs -/

section Logs

variable (chooser : Chooser) (make : Skeleton → Build Expr)

/-- A round, with the ids that failed in it, the latest first. -/
def roundLog : Nat → List String → Build (List String × Option (Skeleton × Expr))
  | 0, failed => return (failed, none)
  | n + 1, failed => do
    match ← chooser.offer failed with
    | none => return (failed, none)
    | some s =>
      match ← attempt (make s) with
      | some e =>
        chooser.commit s
        return (failed, some (s, e))
      | none => roundLog n (s.id :: failed)

/-- Rounds, with the ids that failed in each of them, the latest first. -/
def roundsLog (size : Nat) :
    Nat → List (List String) → Build (List (List String) × Option (Skeleton × Expr))
  | 0, before => return (before, none)
  | n + 1, before => do
    let (failed, built) ← roundLog chooser make size []
    match built with
    | some built => return (failed :: before, some built)
    | none => roundsLog size n (failed :: before)

variable {chooser make}

theorem roundLog_snd : ∀ (n : Nat) (failed : List String),
    Prod.snd <$> chooser.roundLog make n failed = chooser.round make n failed
  | 0, failed => rfl
  | n + 1, failed => by
      unfold roundLog round
      rw [map_bind]
      refine bind_congr fun offered => ?_
      cases offered with
      | none => rfl
      | some s =>
          rw [map_bind]
          refine bind_congr fun result => ?_
          cases result with
          | none => exact roundLog_snd n (s.id :: failed)
          | some e => simp only [map_bind, map_pure]

theorem roundsLog_snd (size : Nat) : ∀ (n : Nat) (before : List (List String)),
    Prod.snd <$> chooser.roundsLog make size n before = chooser.rounds make size n
  | 0, before => rfl
  | n + 1, before => by
      unfold roundsLog rounds
      rw [← roundLog_snd, map_bind, bind_map_left]
      refine bind_congr fun ⟨failed, built⟩ => ?_
      cases built with
      | none => exact roundsLog_snd size n (failed :: before)
      | some built => rfl

/-- A build is what its log ends with. -/
theorem build_eq (skeletons : List Skeleton) (target : List String) :
    chooser.build skeletons make target
      = chooser.roundsLog make skeletons.length maxRounds [] >>= fun out => match out.2 with
        | some built => pure built
        | none => throw (.unavailable ("|".intercalate (skeletons.map Skeleton.id))
            (.everything target)) := by
  unfold build
  rw [← roundsLog_snd _ _ []]
  exact bind_map_left _ _ _

end Logs

end Chooser

/-! ## Choices among skeletons -/

/-- Skeletons with what decides about their builds, which of them are offered behind those that
failed, and the benches between which one is chosen. -/
structure Choice where
  skeletons : List Skeleton
  unique : (skeletons.map Skeleton.id).Nodup
  can : Skeleton → Prop
  may : Skeleton → Prop
  offered : List String → Skeleton → Prop
  bench : Bench → Prop
  next : Skeleton → Bench → Prop

namespace Choice

variable (k : Choice)

/-- What a chooser offers: a skeleton that did not fail, or nothing if all did. -/
def Offer (failed : List String) : Option Skeleton → Prop
  | some s => s ∈ k.skeletons ∧ s.id ∉ failed ∧ k.offered failed s
  | none => ∀ s ∈ k.skeletons, s.id ∈ failed

/-- A chooser offers skeletons of the choice, and records what was built. -/
structure IsMadeBy (chooser : Chooser) : Prop where
  offer : ∀ failed, Keeps k.bench (k.Offer failed) (chooser.offer failed)
  commit : ∀ s, Ensures k.bench (fun _ => k.next s) (fun _ _ => False) (chooser.commit s)

/-- Some skeletons failed, each of them once, and each may. -/
structure Failed (failed : List String) : Prop where
  once : failed.Nodup
  may : ∀ id ∈ failed, ∃ s ∈ k.skeletons, s.id = id ∧ k.may s

/-- The end of a round: one of the skeletons offered was built, or all may fail. -/
def Ends (failed : List String) : Option (Skeleton × Expr) → Bench → Prop
  | some (s, _), b => (s ∈ k.skeletons ∧ k.can s ∧ k.offered failed s) ∧ k.next s b
  | none, b => (∀ s ∈ k.skeletons, k.may s) ∧ k.bench b

variable {k} {failed : List String} {chooser : Chooser} {make : Skeleton → Build Expr}

namespace Failed

theorem nil : k.Failed [] :=
  ⟨List.nodup_nil, by simp⟩

theorem cons (holds : k.Failed failed) {s : Skeleton} (member : s ∈ k.skeletons)
    (other : s.id ∉ failed) (may : k.may s) : k.Failed (s.id :: failed) where
  once := List.nodup_cons.2 ⟨other, holds.once⟩
  may := List.forall_mem_cons.2 ⟨⟨s, member, rfl, may⟩, holds.may⟩

/-- Ids tell skeletons apart, so it was the skeleton itself that failed. -/
theorem may_of_mem (holds : k.Failed failed) {s : Skeleton} (member : s ∈ k.skeletons)
    (set_aside : s.id ∈ failed) : k.may s := by
  obtain ⟨t, listed, same, may⟩ := holds.may s.id set_aside
  obtain rfl := List.inj_on_of_nodup_map k.unique listed member same
  exact may

/-- When as many failed as there are, all did. -/
theorem mem_of_length (holds : k.Failed failed) (all : failed.length = k.skeletons.length) :
    ∀ s ∈ k.skeletons, s.id ∈ failed := by
  have listed : failed ⊆ k.skeletons.map Skeleton.id := by
    intro id set_aside
    obtain ⟨s, member, rfl, -⟩ := holds.may id set_aside
    exact List.mem_map_of_mem member
  have perm := (List.subperm_of_subset holds.once listed).perm_of_length_le (by simp [all])
  exact fun s member => perm.mem_iff.2 (List.mem_map_of_mem member)

end Failed

/-! ## Rounds -/

variable (made : k.IsMadeBy chooser)
  (makes : ∀ s ∈ k.skeletons, Decides k.bench (k.can s) (k.may s) (make s))
include made makes

theorem roundLog_ensures : ∀ (n : Nat) (failed : List String), k.Failed failed →
    failed.length + n = k.skeletons.length →
      Ensures k.bench (fun out b => k.Failed out.1 ∧ k.Ends out.1 out.2 b) (fun _ _ => False)
        (chooser.roundLog make n failed) := by
  intro n
  induction n with
  | zero =>
      intro failed holds all
      refine .pure fun b bench => ⟨holds, fun s member => ?_, bench⟩
      exact holds.may_of_mem member (holds.mem_of_length all s member)
  | succ n ih =>
      intro failed holds left
      refine (made.offer failed).andThen fun offered offer => ?_
      cases offered with
      | none =>
          exact .pure fun b bench =>
            ⟨holds, fun s member => holds.may_of_mem member (offer s member), bench⟩
      | some s =>
          obtain ⟨member, other, offers⟩ := offer
          refine (makes s member).attempt.andThen fun result decided => ?_
          cases result with
          | none =>
              refine ih (s.id :: failed) (holds.cons member other (decided.2 rfl)) ?_
              rw [List.length_cons]
              omega
          | some e =>
              refine Ensures.bind (made.commit s) fun _ => .pure fun b next => ?_
              exact ⟨holds, ⟨member, decided.1 rfl, offers⟩, next⟩

theorem roundsLog_ensures : ∀ (n : Nat) (before : List (List String)),
    Ensures k.bench
      (fun out b => k.Failed (out.1.headD []) ∧ k.Ends (out.1.headD []) out.2 b)
      (fun _ _ => False) (chooser.roundsLog make k.skeletons.length (n + 1) before) := by
  intro n
  induction n with
  | zero =>
      intro before
      refine (roundLog_ensures made makes _ [] .nil (Nat.zero_add _)).bind ?_
      rintro ⟨failed, _ | built⟩
      · exact .pure fun b holds => holds
      · exact .pure fun b holds => holds
  | succ n ih =>
      intro before
      refine (roundLog_ensures made makes _ [] .nil (Nat.zero_add _)).bind ?_
      rintro ⟨failed, _ | built⟩
      · intro b holds
        exact ih (failed :: before) b holds.2.2
      · exact .pure fun b holds => holds

/-- A skeleton is built that can be, or all may fail. -/
theorem build_ensures (target : List String) :
    Ensures k.bench
      (fun built b => (built.1 ∈ k.skeletons ∧ k.can built.1) ∧ k.next built.1 b)
      (fun fault b => (fault = .unavailable ("|".intercalate (k.skeletons.map Skeleton.id))
        (.everything target) ∧ ∀ s ∈ k.skeletons, k.may s) ∧ k.bench b)
      (chooser.build k.skeletons make target) := by
  rw [Chooser.build_eq]
  refine Ensures.bind (Ensures.mono (roundsLog_ensures made makes _ []) (fun _ _ => id)
    fun _ _ => False.elim) ?_
  rintro ⟨log, _ | ⟨s, e⟩⟩
  · exact .throw fun b holds => ⟨⟨rfl, holds.2.1⟩, holds.2.2⟩
  · exact .pure fun b holds => ⟨⟨holds.2.1.1, holds.2.1.2.1⟩, holds.2.2⟩

end Choice

/-! ## Choosers -/

section Choosers

variable {c : Catalog} {k : Choice}

theorem Choice.isMadeBy_weighted (drifts : Drifts k.bench)
    (offered : ∀ failed s, k.offered failed s) (next : ∀ s b, k.bench b → k.next s b) :
    k.IsMadeBy (.weighted k.skeletons) where
  offer failed := by
    unfold Chooser.weighted
    dsimp only
    split
    · rename_i none
      refine .pure fun s member => ?_
      simpa using List.filter_eq_nil_iff.1 (List.isEmpty_iff.1 none) s member
    · rename_i some_skeleton
      refine drifts.draw fun r => ?_
      rw [List.isEmpty_iff] at some_skeleton
      obtain ⟨s, chosen, drawn⟩ :=
        Rng.pickWeighted?_isSome some_skeleton (fun s : Skeleton => (s.weight : ℚ)) r
      rw [drawn]
      obtain ⟨member, other⟩ := List.mem_filter.1 chosen
      exact ⟨member, by simpa using other, offered failed s⟩
  commit s := .pure (next s)

/-- A rotation over the ids of the skeletons offers those that have their turn. -/
theorem Choice.isMadeBy_rotating (drifts : Drifts k.bench) {rotation : Bench → Rotation ℚ}
    {put : Rotation ℚ → Bench → Bench}
    (listed : ∀ b, k.bench b → ∀ id, id ∈ (rotation b).ids ↔ id ∈ k.skeletons.map Skeleton.id)
    (offered : ∀ b failed s, k.bench b → s.id ∈ (rotation b).eligible failed → k.offered failed s)
    (next : ∀ s b, k.bench b → k.next s (put ((rotation b).commit s.id) b)) :
    k.IsMadeBy (.rotating k.skeletons rotation put) where
  offer failed := by
    refine Keeps.get.bind fun b bench => ?_
    have ids := listed b bench
    have drawn : Keeps k.bench (fun o => (∀ id ∈ o, id ∈ (rotation b).eligible failed) ∧
        (o = none → ∀ id ∈ (rotation b).ids, id ∈ failed)) (draw ((rotation b).pick? failed)) :=
      drifts.draw ((rotation b).pick?_spec failed)
    refine drawn.bind fun o turn => .pure ?_
    cases o with
    | none =>
        intro s member
        exact turn.2 rfl s.id ((ids s.id).2 (List.mem_map_of_mem member))
    | some id =>
        have eligible := turn.1 id rfl
        obtain ⟨at_id, other⟩ := Rotation.mem_of_mem_eligible eligible
        obtain ⟨t, member, rfl⟩ := List.mem_map.1 ((ids id).1 at_id)
        obtain ⟨s, found⟩ := Option.isSome_iff_exists.1
          (List.find?_isSome (p := fun s => s.id == t.id).2 ⟨t, member, beq_self_eq_true _⟩)
        have same : s.id = t.id := by simpa using List.find?_some found
        rw [Option.bind_some, found]
        rw [← same] at eligible other
        exact ⟨List.mem_of_find?_eq_some found, other, offered b failed s bench eligible⟩
  commit s := .modify (next s)

/-! ## Sub-formulas -/

theorem basics_unique : (Skeleton.basics.map Skeleton.id).Nodup := by
  decide

/-- The basic skeletons for a target; whichever is built leaves the bench in order. -/
def basicChoice (c : Catalog) (I : Bench → Prop) (target : List String) : Choice where
  skeletons := Skeleton.basics
  unique := basics_unique
  can s := s.plan.isFed c target = true
  may s := s.plan.isFed c target = false
  offered _ _ := True
  bench := I
  next _ := I

/-- A basic skeleton is built exactly if it is fed. -/
theorem basicSkeleton_decides {I : Bench → Prop} (steady : Steady c I) (range : LiteralRange)
    (sub : List String → Build Expr) {s : Skeleton} (member : s ∈ Skeleton.basics)
    (target : List String) : Decides I (s.plan.isFed c target = true)
      (s.plan.isFed c target = false) (skeleton c range sub s target) := by
  obtain ⟨q, plan⟩ := basics_plan s member
  unfold skeleton
  rw [plan]
  exact basic_decides steady s.id q

/-- A sub-formula is built exactly if there is a basic skeleton for its target. -/
theorem subFormula_decides {I : Bench → Prop} (steady : Steady c I) (range : LiteralRange)
    {chooser : Chooser} {target : List String} (made : (basicChoice c I target).IsMadeBy chooser) :
    Decides I (c.serves target = true) (c.serves target = false)
      (subFormula c range chooser target) := by
  have built := Choice.build_ensures made
    (fun s member => basicSkeleton_decides steady range noSub member target) target
  refine Ensures.bind (built.mono (fun _ _ => id) ?_) fun built => ?_
  · rintro _ b ⟨⟨rfl, unfed⟩, bench⟩
    refine ⟨trivial, List.any_eq_false.2 fun s member => ?_, bench⟩
    rw [unfed s member]
    exact Bool.false_ne_true
  · exact .pure fun b ⟨⟨member, fed⟩, bench⟩ => ⟨List.any_eq_true.2 ⟨built.1, member, fed⟩, bench⟩

end Choosers

end Build

end AlphaFoundry
