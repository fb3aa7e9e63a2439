/-
# AlphaFoundry.Proofs.Generation.DryRuns -- what dry runs find out

A dry run that succeeds shows that a skeleton can be built, and one that fails shows that it may
fail.  What never fails is therefore planned, and what cannot be built is not.  In between, where a
skeleton can be built but also run into a dead end, the stream decides.
-/
import Mathlib
import AlphaFoundry.Proofs.Generation.Plan
import AlphaFoundry.Proofs.Generation.Rounds

namespace AlphaFoundry

set_option autoImplicit false

namespace Generation

open Build

variable {c : Catalog} {signal : List String}

/-- A bench for a catalog, whatever its turns are. -/
def IsFor (c : Catalog) (b : Bench) : Prop :=
  b.fields.catalog = c

theorem isFor_steady : Steady c (IsFor c) where
  catalog _ same := same
  moves _ _ _ _ same := same

/-! ## Probes -/

theorem probe_decides (cap : Nat) (range : LiteralRange) (s : Skeleton) : ∀ (n : Nat) (r : Rng),
    ∃ built r', probe c cap range signal s n r = (.ok built, r') ∧
      (built = true → s.plan.isBuildable c signal = true) ∧
      (built = false → 0 < n → s.plan.neverFails c signal = false)
  | 0, r => ⟨false, r, rfl, nofun, nofun⟩
  | n + 1, r => by
      have subs (target : List String) :
          Decides (IsFor c) (c.serves target = true) (c.serves target = false)
            (subFormula c range (.weighted Skeleton.basics) target) :=
        subFormula_decides isFor_steady range (Choice.isMadeBy_weighted
          (k := basicChoice c (IsFor c) target) isFor_steady.drifts (fun _ _ => trivial) fun _ _ => id)
      have decided := (skeleton_decides isFor_steady range subs s signal).attempt
        ⟨r, { catalog := c, cap }, noTurns, noTurns⟩ rfl
      unfold probe
      dsimp only
      generalize attempt _ _ = tried at decided ⊢
      cases tried with
      | ok result b =>
          obtain ⟨⟨can, may⟩, -⟩ := decided
          cases result with
          | some e => exact ⟨true, b.rng, rfl, fun _ => can rfl, nofun⟩
          | none =>
              obtain ⟨built, r', later, holds, -⟩ := probe_decides cap range s n b.rng
              exact ⟨built, r', later, holds, fun _ _ => may rfl⟩
      | error fault b => exact decided.elim

/-- Some of the skeletons, in their order: all of them can be built, and those left out may fail. -/
structure Foreseen (c : Catalog) (signal : List String) (ss found : List Skeleton) : Prop where
  sublist : found.Sublist ss
  can : ∀ s ∈ found, s.plan.isBuildable c signal = true
  sure : ∀ s ∈ ss, s.plan.neverFails c signal = true → s ∈ found

theorem feasible_foreseen (cap : Nat) (range : LiteralRange) : ∀ (ss : List Skeleton) (r : Rng),
    ∃ found, (feasible c cap range signal ss r).result = .ok found ∧ Foreseen c signal ss found
  | [], _ => ⟨[], rfl, .refl _, by simp, by simp⟩
  | s :: rest, r => by
      obtain ⟨built, r', probed, can, may⟩ := probe_decides cap range s maxProbes r
      obtain ⟨found, ended, sublist, cans, sure⟩ := feasible_foreseen cap range rest r'
      unfold feasible
      rw [probed]
      cases built with
      | true =>
          refine ⟨s :: found, Logged.bind_result.2 ⟨found, ended, rfl⟩, sublist.cons_cons s, ?_, ?_⟩
          · exact List.forall_mem_cons.2 ⟨can rfl, cans⟩
          · refine List.forall_mem_cons.2 ⟨fun _ => List.mem_cons_self, fun t member never => ?_⟩
            exact List.mem_cons_of_mem s (sure t member never)
      | false =>
          refine ⟨found, Logged.bind_result.2 ⟨(), rfl, ended⟩, sublist.cons s, cans, ?_⟩
          refine List.forall_mem_cons.2 ⟨fun never => ?_, sure⟩
          rw [may rfl (by decide)] at never
          cases never

/-- Without dead ends, the dry runs find all that can be built. -/
theorem Foreseen.eq_filter {ss found : List Skeleton} (foreseen : Foreseen c signal ss found)
    (once : ss.Nodup) {property : Skeleton → Bool}
    (can : ∀ s ∈ ss, s.plan.isBuildable c signal = true → property s = true)
    (sure : ∀ s ∈ ss, property s = true → s.plan.neverFails c signal = true) :
    found = ss.filter property := by
  have inside : found.Sublist (ss.filter property) := by
    have filtered := foreseen.sublist.filter property
    rwa [List.filter_eq_self.2 fun s listed => ?_] at filtered
    exact can s (foreseen.sublist.subset listed) (foreseen.can s listed)
  refine inside.eq_of_length_le (List.subperm_of_subset (once.filter _) ?_).length_le
  intro s chosen
  obtain ⟨member, holds⟩ := List.mem_filter.1 chosen
  exact foreseen.sure s member (sure s member holds)

theorem pool_unique : ∀ t : Tier, ((pool t).map Skeleton.id).Nodup
  | .basic | .creative | .optimize => by decide

theorem Foreseen.unique {t : Tier} {found : List Skeleton}
    (foreseen : Foreseen c signal (pool t) found) : (found.map Skeleton.id).Nodup :=
  (pool_unique t).sublist (foreseen.sublist.map Skeleton.id)

/-! ## Plans -/

variable {tier : String} {count : Float} {o : Options} {p q : Batch}

/-- A request in order is planned with what the dry runs found, or refused for finding nothing. -/
theorem plan_result (checked : check c tier count o = .ok q) :
    ∃ found, Foreseen q.catalog q.signal (pool q.tier) found ∧
      (plan c tier count o).result = if found = [] then .error (.request (.noSkeleton q.tier))
        else .ok { q with skeletons := found } := by
  obtain ⟨found, ended, foreseen⟩ : ∃ found,
      (feasible q.catalog q.cap q.literalRange q.signal (pool q.tier)
        (probeStream q.seed)).result = .ok found ∧
      Foreseen q.catalog q.signal (pool q.tier) found :=
    feasible_foreseen q.cap q.literalRange _ _
  rw [(planned_of_check checked).catalog] at ended
  refine ⟨found, foreseen, ?_⟩
  unfold plan
  rw [Logged.bind_of_ok (Logged.mapError_result.2 checked),
    Logged.bind_of_ok (Logged.mapError_result.2 ended)]
  cases found with
  | nil => rfl
  | cons s rest => rfl

theorem foreseen_of_plan (made : (plan c tier count o).result = .ok p) :
    Foreseen p.catalog p.signal (pool p.tier) p.skeletons ∧ p.skeletons ≠ [] := by
  obtain ⟨q, checked, -⟩ := Logged.bind_result.1 made
  obtain ⟨found, foreseen, result⟩ := plan_result (Logged.mapError_result.1 checked)
  rw [made] at result
  split at result
  · cases result
  · rename_i some_skeleton
    obtain rfl := Except.ok.inj result
    exact ⟨foreseen, some_skeleton⟩

/-- A plan fails only as a refusal of its request. -/
theorem plan_error {fault : PlanFault} (failed : (plan c tier count o).result = .error fault) :
    ∃ refusal, fault = .request refusal := by
  cases checked : check c tier count o with
  | error refusal =>
      unfold plan at failed
      rw [checked] at failed
      exact ⟨refusal, (Except.error.inj failed).symm⟩
  | ok q =>
      obtain ⟨found, -, result⟩ := plan_result checked
      rw [result] at failed
      split at failed
      · exact ⟨_, (Except.error.inj failed).symm⟩
      · cases failed

end Generation

end AlphaFoundry
