/-
# AlphaFoundry.Proofs.Generation.Passes -- every build of a chooser, one after another

The rounds of a chooser are counted down, so that they end.  Nothing of that is in `Pass` and
`Passes`: a pass goes on until something is built or nothing is offered, and says which skeletons
were built on which benches.  It comes to an end all the same, since a skeleton that failed is not
offered again (`exists_pass`), and the counts are never what ends a round (`Pass.round_eq`).

All else is by induction on the passes: in one of them no skeleton is built twice, ten of them that
end without a result failed all skeletons in each, and a rotation records what was built and nothing
else (`build_passes`).  A tier's skeletons leave its rotation alone, so that is how the formula of
every candidate is built (`topChooser_told`).
-/
import Mathlib
import AlphaFoundry.Proofs.Generation.Frame
import AlphaFoundry.Proofs.Generation.Rounds

namespace AlphaFoundry

set_option autoImplicit false

/-- The ids that turns are taken among are those of the skeletons. -/
def Rotation.Over {α : Type} (rot : Rotation α) (skeletons : List Skeleton) : Prop :=
  ∀ id, id ∈ rot.ids ↔ id ∈ skeletons.map Skeleton.id

namespace Build

/-! ## Seats -/

/-- A place on the bench where turns are taken, in a rotation that the stream does not matter
for. -/
structure Seat where
  rotation : Bench → Rotation ℚ
  put : Rotation ℚ → Bench → Bench
  rotation_put : ∀ rot b, rotation (put rot b) = rot
  rotation_draw : ∀ b rng, rotation { b with rng } = rotation b

namespace Seat

/-- The turns of the tier's skeletons. -/
def top : Seat where
  rotation := Bench.top
  put top b := { b with top }
  rotation_put _ _ := rfl
  rotation_draw _ _ := rfl

/-- The turns of the basic skeletons, for sub-formulas. -/
def sub : Seat where
  rotation := Bench.sub
  put sub b := { b with sub }
  rotation_put _ _ := rfl
  rotation_draw _ _ := rfl

/-- The rotation that turns are taken in, if they are. -/
def turns (seat : Option Seat) (b : Bench) : Option (Rotation ℚ) :=
  seat.map fun p => p.rotation b

/-- A build does not reach the rotation, whatever comes of it. -/
def Spares (seat : Option Seat) (x : Build Expr) : Prop :=
  ∀ rot, Stays (fun b => turns seat b = rot) x

end Seat

/-- Skeletons in the turns of a rotation, or without one by weight alone. -/
def Chooser.seated (skeletons : List Skeleton) : Option Seat → Chooser
  | none => .weighted skeletons
  | some p => .rotating skeletons p.rotation p.put

example (p : Batch) : Chooser.seated p.skeletons (some .top) = p.topChooser := rfl

example : Chooser.seated Skeleton.basics (some .sub) = Batch.subChooser := rfl

/-- The skeletons of a tier are built without its rotation, though with turns of the basic ones. -/
theorem top_spares (c : Catalog) (range : LiteralRange) (s : Skeleton) (target : List String) :
    Seat.Spares (some .top)
      (skeleton c range (subFormula c range Batch.subChooser) s target) := by
  intro rot
  have aside : Aside fun b => Seat.turns (some .top) b = rot := fun _ _ _ same => same
  have leaves : Batch.subChooser.Leaves fun b => Seat.turns (some .top) b = rot :=
    Chooser.rotating_leaves aside Skeleton.basics fun _ _ same => same
  exact aside.skeleton range (fun target => subFormula_stays aside range leaves target) s target

theorem sub_spares (c : Catalog) (range : LiteralRange) (s : Skeleton) (target : List String) :
    Seat.Spares (some .sub) (skeleton c range noSub s target) :=
  fun _ => basicSkeleton_stays (fun _ _ _ same => same) range s target

/-! ## Passes -/

/-- What comes of a pass, with the bench behind it: what was built, if anything was, or the fault of
a build. -/
abbrev Outcome : Type :=
  EStateM.Result Fault Bench (Option (Skeleton × Expr))

section Passes

variable (chooser : Chooser) (make : Skeleton → Build Expr)

/-- A pass from a bench, behind skeletons that failed in it, with those that are built from there on
and the benches that they are built on. -/
inductive Pass : List String → Bench → List (Skeleton × Bench) → Outcome → Prop where
  | exhausted {failed : List String} {b b' : Bench}
      (nothing : chooser.offer failed b = .ok none b') : Pass failed b [] (.ok none b')
  | built {failed : List String} {b b₁ b₂ b₃ : Bench} {s : Skeleton} {e : Expr}
      (offered : chooser.offer failed b = .ok (some s) b₁) (made : make s b₁ = .ok e b₂)
      (committed : chooser.commit s b₂ = .ok () b₃) :
      Pass failed b [(s, b₁)] (.ok (some (s, e)) b₃)
  | lacking {failed : List String} {b b₁ b₂ : Bench} {s : Skeleton} {id : String} {lack : Lack}
      {tries : List (Skeleton × Bench)} {out : Outcome}
      (offered : chooser.offer failed b = .ok (some s) b₁)
      (made : make s b₁ = .error (.unavailable id lack) b₂)
      (rest : Pass (s.id :: failed) b₂ tries out) : Pass failed b ((s, b₁) :: tries) out
  | broken {failed : List String} {b b₁ b₂ : Bench} {s : Skeleton} {fault : Fault}
      (offered : chooser.offer failed b = .ok (some s) b₁) (made : make s b₁ = .error fault b₂)
      (foreign : ¬fault.IsLack) : Pass failed b [(s, b₁)] (.error fault b₂)

/-- Passes from a bench, as many as there may be at most, with what is built in each.  There is
another one only behind a pass in which nothing was. -/
inductive Passes : ℕ → Bench → List (List (Skeleton × Bench)) → Outcome → Prop where
  | spent {b : Bench} : Passes 0 b [] (.ok none b)
  | again {n : ℕ} {b b' : Bench} {tries : List (Skeleton × Bench)}
      {log : List (List (Skeleton × Bench))} {out : Outcome}
      (pass : Pass chooser make [] b tries (.ok none b')) (rest : Passes n b' log out) :
      Passes (n + 1) b (tries :: log) out
  | built {n : ℕ} {b b' : Bench} {tries : List (Skeleton × Bench)} {built : Skeleton × Expr}
      (pass : Pass chooser make [] b tries (.ok (some built) b')) :
      Passes (n + 1) b [tries] (.ok (some built) b')
  | broken {n : ℕ} {b b' : Bench} {tries : List (Skeleton × Bench)} {fault : Fault}
      (pass : Pass chooser make [] b tries (.error fault b')) :
      Passes (n + 1) b [tries] (.error fault b')

/-- A skeleton is unavailable on a bench. -/
def Lacks (t : Skeleton × Bench) : Prop :=
  ∃ fault b, make t.1 t.2 = .error fault b ∧ fault.IsLack

/-- How builds one after another end: all of them were unavailable, or all but the last, which was
built and committed, or had another fault. -/
def Closes (tries : List (Skeleton × Bench)) : Outcome → Prop
  | .ok none _ => ∀ t ∈ tries, Lacks make t
  | .ok (some (s, e)) b' => ∃ before b₁ b₂, tries = before ++ [(s, b₁)] ∧
      (∀ t ∈ before, Lacks make t) ∧ make s b₁ = .ok e b₂ ∧ chooser.commit s b₂ = .ok () b'
  | .error fault b' => ∃ before s b₁, tries = before ++ [(s, b₁)] ∧
      (∀ t ∈ before, Lacks make t) ∧ make s b₁ = .error fault b' ∧ ¬fault.IsLack

end Passes

section Facts

variable {chooser : Chooser} {make : Skeleton → Build Expr} {failed : List String} {b b' : Bench}
  {tries : List (Skeleton × Bench)} {log : List (List (Skeleton × Bench))} {out : Outcome} {n : ℕ}

/-! ### How passes end -/

/-- What was unavailable before does not matter for the end. -/
theorem Closes.append {earlier : List (Skeleton × Bench)} (lacked : ∀ t ∈ earlier, Lacks make t)
    (closes : Closes chooser make tries out) : Closes chooser make (earlier ++ tries) out := by
  match out, closes with
  | .ok none _, lack => exact List.forall_mem_append.2 ⟨lacked, lack⟩
  | .ok (some _) _, ⟨before, b₁, b₂, split, lack, rest⟩ =>
      refine ⟨earlier ++ before, b₁, b₂, ?_, List.forall_mem_append.2 ⟨lacked, lack⟩, rest⟩
      rw [split, List.append_assoc]
  | .error _ _, ⟨before, s, b₁, split, lack, rest⟩ =>
      refine ⟨earlier ++ before, s, b₁, ?_, List.forall_mem_append.2 ⟨lacked, lack⟩, rest⟩
      rw [split, List.append_assoc]

theorem Pass.closes (pass : Pass chooser make failed b tries out) :
    Closes chooser make tries out := by
  induction pass with
  | exhausted nothing => exact List.forall_mem_nil _
  | built offered made committed =>
      exact ⟨[], _, _, rfl, List.forall_mem_nil _, made, committed⟩
  | lacking offered made rest ih =>
      have lacks : Lacks make (_, _) := ⟨_, _, made, trivial⟩
      exact ih.append (List.forall_mem_singleton.2 lacks)
  | broken offered made foreign =>
      exact ⟨[], _, _, rfl, List.forall_mem_nil _, made, foreign⟩

theorem Passes.closes (passes : Passes chooser make n b log out) :
    Closes chooser make log.flatten out := by
  induction passes with
  | spent => exact List.forall_mem_nil _
  | again pass rest ih => exact ih.append pass.closes
  | built pass => simpa using pass.closes
  | broken pass => simpa using pass.closes

/-! ### What a pass tries -/

variable {k : Choice}

/-- A skeleton was chosen and recorded, or the bench is still one between which is chosen. -/
def Choice.Left (k : Choice) : Outcome → Prop
  | .ok (some (s, _)) b => k.next s b
  | .ok none b => k.bench b
  | .error _ b => k.bench b

/-- What a pass tries are skeletons that did not fail in it before, none of them twice, on benches
between which is chosen.  If it ends without any being built, then all failed. -/
structure Traced (k : Choice) (failed : List String) (tries : List (Skeleton × Bench))
    (out : Outcome) : Prop where
  listed : ∀ t ∈ tries, t.1 ∈ k.skeletons
  fresh : ∀ t ∈ tries, t.1.id ∉ failed
  once : (tries.map Prod.fst).Nodup
  benches : ∀ t ∈ tries, k.bench t.2
  all : ∀ b', out = .ok none b' → ∀ s ∈ k.skeletons, s.id ∈ failed ∨ ∃ t ∈ tries, t.1.id = s.id

namespace Traced

theorem last {s : Skeleton} (listed : s ∈ k.skeletons) (fresh : s.id ∉ failed) (bench : k.bench b)
    (ended : ∀ b', out ≠ .ok none b') : Traced k failed [(s, b)] out where
  listed := by simpa using listed
  fresh := by simpa using fresh
  once := List.nodup_singleton _
  benches := by simpa using bench
  all b' none := absurd none (ended b')

theorem cons {s : Skeleton} (listed : s ∈ k.skeletons) (fresh : s.id ∉ failed) (bench : k.bench b)
    (rest : Traced k (s.id :: failed) tries out) : Traced k failed ((s, b) :: tries) out where
  listed := List.forall_mem_cons.2 ⟨listed, rest.listed⟩
  fresh := List.forall_mem_cons.2
    ⟨fresh, fun t member set_aside => rest.fresh t member (List.mem_cons_of_mem _ set_aside)⟩
  once := by
    refine List.nodup_cons.2 ⟨fun later => ?_, rest.once⟩
    obtain ⟨t, member, rfl⟩ := List.mem_map.1 later
    exact rest.fresh t member List.mem_cons_self
  benches := List.forall_mem_cons.2 ⟨bench, rest.benches⟩
  all b' none s' member := by
    rcases rest.all b' none s' member with set_aside | ⟨t, later, same⟩
    · rcases List.mem_cons.1 set_aside with same | before
      · exact .inr ⟨_, List.mem_cons_self, same.symm⟩
      · exact .inl before
    · exact .inr ⟨t, List.mem_cons_of_mem _ later, same⟩

theorem subset (traced : Traced k failed tries out) : tries.map Prod.fst ⊆ k.skeletons := by
  rintro _ member
  obtain ⟨t, tried, rfl⟩ := List.mem_map.1 member
  exact traced.listed t tried

theorem length_le (traced : Traced k failed tries out) : tries.length ≤ k.skeletons.length := by
  have few := (List.subperm_of_subset traced.once traced.subset).length_le
  rwa [List.length_map] at few

/-- A pass in which nothing was built is one over all skeletons. -/
theorem perm (traced : Traced k [] tries (.ok none b')) :
    (tries.map Prod.fst).Perm k.skeletons := by
  refine (List.perm_ext_iff_of_nodup traced.once k.unique.of_map).2 fun s => ⟨fun member =>
    traced.subset member, fun member => ?_⟩
  obtain ⟨t, tried, same⟩ := (traced.all b' rfl s member).resolve_left List.not_mem_nil
  obtain rfl := List.inj_on_of_nodup_map k.unique (traced.listed t tried) member same
  exact List.mem_map_of_mem tried

end Traced

/-- A chooser that has nothing to offer does not touch the bench. -/
def Choice.Idles (k : Choice) (chooser : Chooser) : Prop :=
  ∀ failed b b', k.bench b → chooser.offer failed b = .ok none b' → b' = b

section Made

variable (made : k.IsMadeBy chooser) (makes : ∀ s ∈ k.skeletons, Stays k.bench (make s))
include made makes

/-- Whatever the builds do, what a chooser offers decides what a pass tries. -/
theorem Pass.traced (pass : Pass chooser make failed b tries out) (bench : k.bench b) :
    Traced k failed tries out ∧ k.Left out := by
  induction pass with
  | exhausted nothing =>
      obtain ⟨all, bench⟩ := (made.offer _).of_ok bench nothing
      refine ⟨⟨List.forall_mem_nil _, List.forall_mem_nil _, List.nodup_nil, List.forall_mem_nil _,
        fun _ _ s member => .inl (all s member)⟩, bench⟩
  | built offered build committed =>
      obtain ⟨⟨listed, fresh, -⟩, bench⟩ := (made.offer _).of_ok bench offered
      have behind := (makes _ listed).of_ok bench build
      exact ⟨.last listed fresh bench nofun, (made.commit _).of_ok behind committed⟩
  | lacking offered build rest ih =>
      obtain ⟨⟨listed, fresh, -⟩, bench⟩ := (made.offer _).of_ok bench offered
      obtain ⟨traced, left⟩ := ih ((makes _ listed).of_error bench build)
      exact ⟨traced.cons listed fresh bench, left⟩
  | broken offered build foreign =>
      obtain ⟨⟨listed, fresh, -⟩, bench⟩ := (made.offer _).of_ok bench offered
      exact ⟨.last listed fresh bench nofun, (makes _ listed).of_error bench build⟩

/-- There are no more passes than there may be, and what holds of one holds of each. -/
theorem Passes.traced (passes : Passes chooser make n b log out) (bench : k.bench b) :
    (log.length ≤ n ∧ ∀ tries ∈ log, ∃ out, Traced k [] tries out) ∧ k.Left out := by
  induction passes with
  | spent => exact ⟨⟨le_rfl, List.forall_mem_nil _⟩, bench⟩
  | again pass rest ih =>
      obtain ⟨traced, behind⟩ := pass.traced made makes bench
      obtain ⟨⟨few, each⟩, left⟩ := ih behind
      exact ⟨⟨Nat.succ_le_succ few, List.forall_mem_cons.2 ⟨⟨_, traced⟩, each⟩⟩, left⟩
  | built pass =>
      obtain ⟨traced, left⟩ := pass.traced made makes bench
      exact ⟨⟨Nat.succ_le_succ (Nat.zero_le _), by simpa using ⟨_, traced⟩⟩, left⟩
  | broken pass =>
      obtain ⟨traced, left⟩ := pass.traced made makes bench
      exact ⟨⟨Nat.succ_le_succ (Nat.zero_le _), by simpa using ⟨_, traced⟩⟩, left⟩

/-- Where nothing was built there were as many passes as there may be, each over all skeletons. -/
theorem Passes.exhausted (passes : Passes chooser make n b log out) (bench : k.bench b)
    (none : out = .ok none b') :
    log.length = n ∧ ∀ tries ∈ log, (tries.map Prod.fst).Perm k.skeletons := by
  induction passes with
  | spent => exact ⟨rfl, List.forall_mem_nil _⟩
  | again pass rest ih =>
      obtain ⟨traced, behind⟩ := pass.traced made makes bench
      obtain ⟨many, each⟩ := ih behind none
      exact ⟨congrArg Nat.succ many, List.forall_mem_cons.2 ⟨traced.perm, each⟩⟩
  | built _ => cases none
  | broken _ => cases none

/-! ### Rounds are passes -/

/-- A pass comes to an end, since a skeleton that failed is not offered again. -/
theorem exists_pass (may : ∀ s, k.may s) : ∀ (n : ℕ) (failed : List String) (b : Bench),
    k.Failed failed → failed.length + n = k.skeletons.length → k.bench b →
      ∃ tries out, Pass chooser make failed b tries out := by
  intro n
  induction n with
  | zero =>
      intro failed b holds all bench
      obtain ⟨o, b₁, offered, offer, -⟩ := Ensures.exists_ok (made.offer failed) bench
      cases o with
      | none => exact ⟨[], _, .exhausted offered⟩
      | some s => exact absurd (holds.mem_of_length all s offer.1) offer.2.1
  | succ n ih =>
      intro failed b holds left bench
      obtain ⟨o, b₁, offered, offer, bench⟩ := Ensures.exists_ok (made.offer failed) bench
      cases o with
      | none => exact ⟨[], _, .exhausted offered⟩
      | some s =>
          obtain ⟨listed, fresh, -⟩ := offer
          cases build : make s b₁ with
          | ok e b₂ =>
              have behind := (makes s listed).of_ok bench build
              obtain ⟨⟨⟩, b₃, committed, -⟩ := Ensures.exists_ok (made.commit s) behind
              exact ⟨_, _, .built offered build committed⟩
          | error fault b₂ =>
              have behind := (makes s listed).of_error bench build
              cases fault with
              | unavailable id lack =>
                  obtain ⟨tries, out, rest⟩ := ih (s.id :: failed) b₂
                    (holds.cons listed fresh (may s)) (by rw [List.length_cons]; omega) behind
                  exact ⟨_, _, .lacking offered build rest⟩
              | noField domains => exact ⟨_, _, .broken offered build id⟩
              | emptyList => exact ⟨_, _, .broken offered build id⟩

theorem exists_passes (may : ∀ s, k.may s) : ∀ (n : ℕ) (b : Bench), k.bench b →
    ∃ log out, Passes chooser make n b log out := by
  intro n
  induction n with
  | zero => exact fun b _ => ⟨_, _, .spent⟩
  | succ n ih =>
      intro b bench
      obtain ⟨tries, out, pass⟩ := exists_pass made makes may _ [] b .nil (Nat.zero_add _) bench
      have behind := (pass.traced made makes bench).2
      match out, pass, behind with
      | .ok none b', pass, behind =>
          obtain ⟨log, out, rest⟩ := ih b' behind
          exact ⟨_, _, .again pass rest⟩
      | .ok (some built) b', pass, _ => exact ⟨_, _, .built pass⟩
      | .error fault b', pass, _ => exact ⟨_, _, .broken pass⟩

/-- A round is a pass, as soon as it may take a step for each of its builds. -/
theorem Pass.round_eq (idle : k.Idles chooser) (pass : Pass chooser make failed b tries out)
    (bench : k.bench b) : ∀ size, tries.length ≤ size → chooser.round make size failed b = out := by
  induction pass with
  | exhausted nothing =>
      rintro (_ | size) -
      · rw [idle _ _ _ bench nothing]
        rfl
      · unfold Chooser.round
        rw [bind_of_ok nothing]
        rfl
  | built offered build committed =>
      rintro (_ | size) enough
      · cases enough
      · unfold Chooser.round
        rw [bind_of_ok offered]
        dsimp only
        rw [bind_of_ok (attempt_of_ok build)]
        dsimp only
        rw [bind_of_ok committed]
        rfl
  | lacking offered build rest ih =>
      obtain ⟨⟨listed, -, -⟩, bench⟩ := (made.offer _).of_ok bench offered
      rintro (_ | size) enough
      · cases enough
      · unfold Chooser.round
        rw [bind_of_ok offered]
        dsimp only
        rw [bind_of_ok (attempt_of_lack build)]
        exact ih ((makes _ listed).of_error bench build) size (Nat.le_of_succ_le_succ enough)
  | broken offered build foreign =>
      rintro (_ | size) enough
      · cases enough
      · unfold Chooser.round
        rw [bind_of_ok offered]
        dsimp only
        rw [bind_of_error (attempt_of_foreign build foreign)]

theorem Passes.rounds_eq (idle : k.Idles chooser) (passes : Passes chooser make n b log out)
    (bench : k.bench b) {size : ℕ} (enough : k.skeletons.length ≤ size) :
    chooser.rounds make size n b = out := by
  have round {b : Bench} {tries : List (Skeleton × Bench)} {out : Outcome} (bench : k.bench b)
      (pass : Pass chooser make [] b tries out) : chooser.round make size [] b = out :=
    pass.round_eq made makes idle bench size
      ((pass.traced made makes bench).1.length_le.trans enough)
  induction passes with
  | spent => rfl
  | again pass rest ih =>
      unfold Chooser.rounds
      rw [bind_of_ok (round bench pass)]
      exact ih (pass.traced made makes bench).2
  | built pass =>
      unfold Chooser.rounds
      rw [bind_of_ok (round bench pass)]
      rfl
  | broken pass =>
      unfold Chooser.rounds
      rw [bind_of_error (round bench pass)]

end Made

end Facts

/-! ## Choosers with a seat -/

section Seated

variable {skeletons : List Skeleton} {seat : Option Seat} {rot : Option (Rotation ℚ)}

/-- The choice between skeletons of which each may be built and may fail, in the turns of a
rotation. -/
def Choice.seated (unique : (skeletons.map Skeleton.id).Nodup) (seat : Option Seat)
    (rot : Option (Rotation ℚ)) : Choice where
  skeletons := skeletons
  unique := unique
  can _ := True
  may _ := True
  offered _ _ := True
  bench b := Seat.turns seat b = rot
  next s b := Seat.turns seat b = rot.map (·.commit s.id)

theorem Choice.seated_drifts (unique : (skeletons.map Skeleton.id).Nodup) :
    Drifts (Choice.seated unique seat rot).bench := by
  intro b rng same
  cases seat with
  | none => exact same
  | some p => exact (congrArg some (p.rotation_draw b rng)).trans same

variable (unique : (skeletons.map Skeleton.id).Nodup) (listed : ∀ r ∈ rot, r.Over skeletons)
include listed

theorem Choice.isMadeBy_seated :
    (Choice.seated unique seat rot).IsMadeBy (.seated skeletons seat) := by
  cases seat with
  | none =>
      refine Choice.isMadeBy_weighted (Choice.seated_drifts unique) (fun _ _ => trivial) ?_
      rintro s b rfl
      rfl
  | some p =>
      refine Choice.isMadeBy_rotating (Choice.seated_drifts unique) ?_ (fun _ _ _ _ _ => trivial) ?_
      · rintro b rfl
        exact listed _ rfl
      · rintro s b rfl
        exact congrArg some (p.rotation_put _ b)

theorem Choice.idles_seated : (Choice.seated unique seat rot).Idles (.seated skeletons seat) := by
  rintro failed b b' rfl nothing
  cases seat with
  | none =>
      unfold Chooser.seated Chooser.weighted at nothing
      dsimp only at nothing
      split at nothing
      · exact (EStateM.Result.ok.inj nothing).2.symm
      · rename_i some_skeleton
        rw [List.isEmpty_iff] at some_skeleton
        obtain ⟨s, -, drawn⟩ :=
          Rng.pickWeighted?_isSome some_skeleton (fun s : Skeleton => (s.weight : ℚ)) b.rng
        cases drawn.symm.trans (EStateM.Result.ok.inj nothing).1
  | some p =>
      have offer : (Chooser.seated skeletons (some p)).offer failed b
          = .ok (((p.rotation b).pick? failed b.rng).1.bind fun id =>
              skeletons.find? fun s => s.id == id)
            { b with rng := ((p.rotation b).pick? failed b.rng).2 } := rfl
      rw [offer] at nothing
      obtain ⟨missed, rfl⟩ := EStateM.Result.ok.inj nothing
      cases drawn : ((p.rotation b).pick? failed b.rng).1 with
      | none => exact congrArg (fun rng => { b with rng }) (Rotation.pick?_snd_of_none drawn)
      | some id =>
          have turn := ((p.rotation b).pick?_spec failed b.rng).1 id drawn
          obtain ⟨s, member, same⟩ :=
            List.mem_map.1 ((listed _ rfl id).1 (Rotation.mem_of_mem_eligible turn).1)
          rw [drawn] at missed
          exact absurd (beq_iff_eq.2 same) (List.find?_eq_none.1 missed s member)

end Seated

/-! ## Builds by a chooser -/

section

variable (skeletons : List Skeleton) (seat : Option Seat) (make : Skeleton → Build Expr)
  (target : List String) (b : Bench)

/-- A build by a chooser, told by its passes. -/
structure Told (log : List (List (Skeleton × Bench))) (out : Outcome) : Prop where
  passes : Passes (.seated skeletons seat) make Chooser.maxRounds b log out
  /-- It does not matter how many steps a round may take, from the number of skeletons on. -/
  rounds : ∀ size, skeletons.length ≤ size →
    (Chooser.seated skeletons seat).rounds make size Chooser.maxRounds b = out
  few : log.flatten.length ≤ Chooser.maxRounds * skeletons.length
  once : ∀ tries ∈ log, (tries.map Prod.fst).Nodup ∧ tries.map Prod.fst ⊆ skeletons
  closes : Closes (.seated skeletons seat) make log.flatten out
  ends : match out with
    | .ok (some (s, e)) b' =>
        (Chooser.seated skeletons seat).build skeletons make target b = .ok (s, e) b' ∧
        Seat.turns seat b' = (Seat.turns seat b).map (·.commit s.id)
    | .ok none b' =>
        (Chooser.seated skeletons seat).build skeletons make target b
          = .error (.unavailable ("|".intercalate (skeletons.map Skeleton.id))
              (.everything target)) b' ∧
        (log.length = Chooser.maxRounds ∧ ∀ tries ∈ log, (tries.map Prod.fst).Perm skeletons) ∧
        Seat.turns seat b' = Seat.turns seat b
    | .error fault b' =>
        (Chooser.seated skeletons seat).build skeletons make target b = .error fault b' ∧
        Seat.turns seat b' = Seat.turns seat b

end

variable {skeletons : List Skeleton} {seat : Option Seat} {make : Skeleton → Build Expr} {b : Bench}

/-- What was built is what the passes end with. -/
theorem Told.out_eq {target : List String} {log : List (List (Skeleton × Bench))} {out : Outcome}
    {s : Skeleton} {e : Expr} {b' : Bench} (told : Told skeletons seat make target b log out)
    (built : (Chooser.seated skeletons seat).build skeletons make target b = .ok (s, e) b') :
    out = .ok (some (s, e)) b' := by
  have ends := told.ends
  obtain ⟨_ | ⟨s', e'⟩, b''⟩ | ⟨fault, b''⟩ := out
  · cases ends.1.symm.trans built
  · cases ends.1.symm.trans built
    rfl
  · cases ends.1.symm.trans built

section

variable (unique : (skeletons.map Skeleton.id).Nodup)
  (listed : ∀ rot ∈ Seat.turns seat b, rot.Over skeletons)
  (spares : ∀ s ∈ skeletons, Seat.Spares seat (make s))
include unique listed spares

theorem Chooser.exists_seated_passes :
    ∃ log out, Passes (.seated skeletons seat) make maxRounds b log out :=
  exists_passes (Choice.isMadeBy_seated unique listed) (fun s member => spares s member _)
    (fun _ => trivial) maxRounds b rfl

/-- The passes of a build tell all of it. -/
theorem Chooser.told_of_passes (target : List String) {log : List (List (Skeleton × Bench))}
    {out : Outcome} (passes : Passes (.seated skeletons seat) make maxRounds b log out) :
    Told skeletons seat make target b log out := by
  let k := Choice.seated unique seat (Seat.turns seat b)
  have made : k.IsMadeBy (.seated skeletons seat) := Choice.isMadeBy_seated unique listed
  have makes : ∀ s ∈ k.skeletons, Stays k.bench (make s) := fun s member => spares s member _
  have bench : k.bench b := rfl
  obtain ⟨⟨few, each⟩, left⟩ := passes.traced made makes bench
  have rounds (size : ℕ) (enough : skeletons.length ≤ size) :
      (Chooser.seated skeletons seat).rounds make size maxRounds b = out :=
    passes.rounds_eq made makes (Choice.idles_seated unique listed) bench enough
  constructor
  case passes => exact passes
  case rounds => exact rounds
  case few =>
    have each : ∀ n ∈ log.map List.length, n ≤ skeletons.length := by
      intro n member
      obtain ⟨tries, tried, rfl⟩ := List.mem_map.1 member
      obtain ⟨out, traced⟩ := each tries tried
      exact traced.length_le
    calc log.flatten.length
        = (log.map List.length).sum := List.length_flatten
      _ ≤ (log.map List.length).length * skeletons.length := List.sum_le_card_nsmul _ _ each
      _ ≤ maxRounds * skeletons.length := by
          rw [List.length_map]
          exact Nat.mul_le_mul_right _ few
  case once =>
    intro tries member
    obtain ⟨out, traced⟩ := each tries member
    exact ⟨traced.once, traced.subset⟩
  case closes => exact passes.closes
  case ends =>
    have result := rounds skeletons.length le_rfl
    unfold build
    match out, passes, left, result with
    | .ok (some (s, e)) b', passes, left, result =>
        rw [bind_of_ok result]
        exact ⟨rfl, left⟩
    | .ok none b', passes, left, result =>
        rw [bind_of_ok result]
        exact ⟨rfl, passes.exhausted made makes bench rfl, left⟩
    | .error fault b', passes, left, result =>
        rw [bind_of_error result]
        exact ⟨rfl, left⟩

end

/-- Whatever the builds do, a build by a chooser is at most ten passes, none with a skeleton twice.
The first build that succeeds is the result, and its skeleton is all that the rotation records;
there is none only if each pass failed all skeletons. -/
theorem Chooser.build_passes (unique : (skeletons.map Skeleton.id).Nodup)
    (listed : ∀ rot ∈ Seat.turns seat b, rot.Over skeletons)
    (spares : ∀ s ∈ skeletons, Seat.Spares seat (make s)) (target : List String) :
    ∃ log out, Told skeletons seat make target b log out := by
  obtain ⟨log, out, passes⟩ := exists_seated_passes unique listed spares
  exact ⟨log, out, told_of_passes unique listed spares target passes⟩

/-- Three of the basic skeletons have nothing to be built from in a small catalog.  They are passed
over, and only the one that is built takes its turn. -/
theorem Chooser.build_passes_basics :
    let make : Skeleton → Build Expr := fun s => skeleton Catalog.small {} noSub s ["real"]
    let b : Bench := ⟨.ofInt 3, { catalog := Catalog.small, cap := 1 }, Generation.noTurns,
      { ids := Skeleton.basics.map Skeleton.id, weight := fun id => Skeleton.weightOf id,
        strict := false }⟩
    (Skeleton.basics.map Skeleton.id).Nodup ∧
    (∀ rot ∈ Seat.turns (some .sub) b, rot.Over Skeleton.basics) ∧
    (∀ s ∈ Skeleton.basics, Seat.Spares (some .sub) (make s)) ∧
    ∃ log s e b', Told Skeleton.basics (some .sub) make ["real"] b log (.ok (some (s, e)) b') ∧
      s.id = "cross_rank" ∧ b'.sub.history = ["cross_rank"] := by
  intro make b
  have listed : ∀ rot ∈ Seat.turns (some .sub) b, rot.Over Skeleton.basics := by
    rintro _ ⟨⟩ id
    rfl
  have spares : ∀ s ∈ Skeleton.basics, Seat.Spares (some .sub) (make s) :=
    fun s _ => sub_spares Catalog.small {} s ["real"]
  obtain ⟨log, out, told⟩ := build_passes basics_unique listed spares ["real"]
  have built : (match (seated Skeleton.basics (some .sub)).rounds make 6 maxRounds b with
      | .ok (some (s, _)) b' => s.id == "cross_rank" && b'.sub.history == ["cross_rank"]
      | .ok none _ => false
      | .error _ _ => false) = true := by
    decide +kernel
  rw [told.rounds 6 le_rfl] at built
  obtain (⟨_ | ⟨s, e⟩, b'⟩ | _) := out
  · cases built
  · obtain ⟨chosen, turn⟩ := Bool.and_eq_true_iff.1 built
    exact ⟨basics_unique, listed, spares, log, s, e, b', told, eq_of_beq chosen, eq_of_beq turn⟩
  · cases built

end Build

/-! ## Candidates -/

namespace Batch

open Build

variable (p : Batch)

/-- The build of a skeleton for a candidate. -/
def make (s : Skeleton) : Build Expr :=
  skeleton p.catalog p.literalRange (subFormula p.catalog p.literalRange subChooser) s p.signal

variable {p}

/-- The formula of a candidate is built in passes over the skeletons of its batch, and the turns of
sub-formulas that are taken on the way are none of theirs. -/
theorem topChooser_told (unique : (p.skeletons.map Skeleton.id).Nodup) {b : Bench}
    (listed : b.top.Over p.skeletons) :
    ∃ log out, Told p.skeletons (some .top) p.make p.signal b log out := by
  have seated : ∀ rot ∈ Seat.turns (some .top) b, rot.Over p.skeletons := by
    rintro _ ⟨⟩
    exact listed
  have spares : ∀ s ∈ p.skeletons, Seat.Spares (some .top) (p.make s) :=
    fun s _ => top_spares p.catalog p.literalRange s p.signal
  obtain ⟨log, out, passes⟩ := Chooser.exists_seated_passes unique seated spares
  exact ⟨log, out, Chooser.told_of_passes unique seated spares p.signal passes⟩

end Batch

end AlphaFoundry
