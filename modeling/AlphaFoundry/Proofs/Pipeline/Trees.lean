/-
# AlphaFoundry.Proofs.Pipeline.Trees -- dropped candidates are repeated formulas

A line compares candidates by their written formulas.  On the bundled catalog that is to compare the
formulas themselves: what is generated can be told from its written form, and a search changes
neither the literals of a formula nor that its nodes are in order.  So a candidate is dropped only
if an accepted one has the same formula.
-/
import Mathlib
import AlphaFoundry.Proofs.Generation.Bundled
import AlphaFoundry.Proofs.Generation.Literals
import AlphaFoundry.Proofs.Optimization.Frame
import AlphaFoundry.Proofs.Pipeline.Run

namespace AlphaFoundry

set_option autoImplicit false

/-! ## Formulas that can be told from their written forms -/

namespace Outline

theorem WellBuilt.ordered {c : Catalog} {tier : Tier} {e : Expr}
    (built : e.outline.WellBuilt c tier) : e.All (Expr.InOrder c) :=
  Expr.all_inOrder_of_nodeFits built.nodes

theorem SameFrame.twoPlaced {c : Catalog} {e e' : Expr} (same : SameFrame c e.outline e'.outline)
    (placed : e.All Expr.TwoPlaced) : e'.All Expr.TwoPlaced := by
  intro p n found
  cases n with
  | literal value =>
      have relabelled : e'.outline p = some (.literal value) :=
        Expr.outline_eq_some.2 ⟨_, found, rfl⟩
      obtain ⟨l, labelled⟩ := Option.isSome_iff_exists.1
        ((same.paths p).symm.trans (by rw [relabelled]; rfl))
      cases same.labels p l _ labelled relabelled
      obtain ⟨n, original, label⟩ := Expr.outline_eq_some.1 labelled
      cases n with
      | literal value' =>
          obtain rfl := Label.literal.inj label
          exact placed p _ original
      | _ => cases label
  | _ => trivial

end Outline

namespace Optimizer

variable {a : Optimizer} {k : Candidate} {iterations : Float} {out : Search.Result}

theorem search_readable (built : k.root.outline.WellBuilt a.catalog k.tier)
    (placed : k.root.All Expr.TwoPlaced) (ended : (a.search k iterations).result = .ok out) :
    out.best.root.Readable a.catalog := by
  obtain ⟨n, best⟩ := best_of_search ended
  rw [best]
  obtain ⟨built, frame⟩ := Search.Setting.after_sameFrame (s := a.setting k.tier)
    (k := a.start k) built n
  exact ⟨built.ordered, frame.twoPlaced placed⟩

end Optimizer

/-! ## Lines -/

namespace Pipeline.Line

variable {s : Line} {p last : Progress} {batch ks accepted rejected dropped : List Candidate}

theorem Improves.readable {k k' : Candidate} {c : Catalog} (improves : s.Improves k k')
    (searches : ∀ a ∈ s.optimizer, a.catalog = c)
    (built : k.root.outline.WellBuilt c k.tier) (placed : k.root.All Expr.TwoPlaced) :
    k'.root.Readable c := by
  unfold Improves at improves
  split at improves
  · rename_i a _ given
    obtain rfl := searches a given
    split at improves
    · obtain ⟨out, ended, rfl⟩ := improves
      exact Optimizer.search_readable built placed ended
    · rw [improves]
      exact ⟨built.ordered, placed⟩
  · rw [improves]
    exact ⟨built.ordered, placed⟩

/-- What an attempt reviews can be told from its written form. -/
theorem Gives.readable (source : s.source = Catalog.Bundled.catalog)
    (searches : ∀ a ∈ s.optimizer, a.catalog = Catalog.Bundled.catalog)
    (gives : s.Gives p batch) : ∀ k ∈ batch, k.root.Readable Catalog.Bundled.catalog := by
  obtain ⟨ks, generated, improved⟩ := gives
  unfold generate at generated
  obtain ⟨plan, made, generated⟩ := Logged.bind_result.1 generated
  obtain ⟨listed, yielded, generated⟩ := Logged.bind_result.1 generated
  split at generated
  swap; · cases generated
  obtain rfl := Except.ok.inj generated
  obtain ⟨-, rfl⟩ := Batch.toList_result.1 (Logged.mapError_result.1 yielded)
  have made := Logged.mapError_result.1 made
  rw [source] at made
  have planned := Generation.planned_of_plan made
  have improves := forall₂_improves improved
  intro k' member
  obtain ⟨i, bound, rfl⟩ := List.getElem_of_mem member
  have yielded := List.get_mem plan.yield.candidates ⟨i, improves.length_eq ▸ bound⟩
  set k := plan.yield.candidates.get ⟨i, improves.length_eq ▸ bound⟩
  have accepted := (Catalog.Bundled.yield_of_plan made).2 k yielded
  have built : k.root.outline.WellBuilt Catalog.Bundled.catalog k.tier :=
    (k.root.survey_shows.accepted_iff.1 (Validator.validate_accepted_iff.2 accepted)).toWellBuilt
  exact Improves.readable (improves.get _ bound) searches built
    (Batch.twoPlaced_of_yield planned yielded)

/-- Where formulas can be told from their written forms, what is dropped is an accepted formula. -/
theorem Sorts.exists_root {c : Catalog} (legible : c.Legible) (catalog : s.catalog = c)
    (sorts : s.Sorts ks accepted rejected dropped) (readable : ∀ k ∈ ks, k.root.Readable c) :
    (∀ a ∈ accepted, a.root.Readable c) ∧ ∀ d ∈ dropped, ∃ a ∈ accepted, a.root = d.root := by
  induction sorts with
  | nil => simp
  | accept before k valid fresh ih =>
      obtain ⟨below, here⟩ := List.forall_mem_append.1 readable
      obtain ⟨kept, repeated⟩ := ih below
      have here : (s.validator.review k).root.Readable c := here k (List.mem_singleton_self k)
      refine ⟨List.forall_mem_append.2 ⟨kept, List.forall_mem_singleton.2 here⟩, fun d member => ?_⟩
      obtain ⟨a, member, same⟩ := repeated d member
      exact ⟨a, List.mem_append_left _ member, same⟩
  | drop before k valid twin ih =>
      obtain ⟨below, here⟩ := List.forall_mem_append.1 readable
      obtain ⟨kept, repeated⟩ := ih below
      refine ⟨kept, List.forall_mem_append.2 ⟨repeated, List.forall_mem_singleton.2 ?_⟩⟩
      obtain ⟨a, member, same⟩ := twin
      have here : k.root.Readable c := here k (List.mem_singleton_self k)
      have same : a.root.render s.catalog = k.root.render s.catalog := same
      rw [catalog] at same
      exact ⟨a, member, Expr.render_injOn legible (kept a member) here same⟩
  | reject before k refused ih =>
      obtain ⟨below, -⟩ := List.forall_mem_append.1 readable
      exact ih below

theorem comes_of_run (ended : s.run.result = .ok last) :
    ∃ batches dropped, s.Comes last batches dropped :=
  attempts_comes _ comes_start (run_eq_ok.1 ended).2

theorem Comes.readable (source : s.source = Catalog.Bundled.catalog)
    (searches : ∀ a ∈ s.optimizer, a.catalog = Catalog.Bundled.catalog)
    {batches : List (List Candidate)} (comes : s.Comes last batches dropped) :
    ∀ k ∈ batches.flatten, k.root.Readable Catalog.Bundled.catalog := by
  intro k member
  obtain ⟨batch, inside, member⟩ := List.mem_flatten.1 member
  obtain ⟨i, at_i⟩ := List.getElem?_of_mem inside
  obtain ⟨before, _, -, -, gives⟩ := comes.gives i batch at_i
  exact gives.readable source searches k member

/-- On the bundled catalog, two formulas whose nodes are in order and whose literals are hundredths
are written alike only if they are the same.  So of all that a run generates on it, improved or not,
a candidate is dropped only if its formula is that of an accepted one. -/
theorem drops_only_repeats {tier : Tier} {cap : Float} :
    Set.InjOn (Expr.render Catalog.Bundled.catalog)
      {e | RuleId.check Catalog.Bundled.catalog tier cap e.survey .shape = [] ∧
        e.All Expr.TwoPlaced} ∧
    ∀ s : Line, s.catalog = Catalog.Bundled.catalog → s.source = Catalog.Bundled.catalog →
      (∀ a ∈ s.optimizer, a.catalog = Catalog.Bundled.catalog) →
        ∀ last, s.run.result = .ok last →
          (∃ batches dropped, s.Comes last batches dropped) ∧
          ∀ batches dropped, s.Comes last batches dropped →
            ∀ d ∈ dropped, ∃ a ∈ last.accepted, a.root = d.root := by
  refine ⟨(Expr.render_injOn Catalog.Bundled.legible).mono ?_, ?_⟩
  · rintro e ⟨clean, placed⟩
    exact ⟨Expr.all_inOrder_of_nodeFits (e.survey_shows.shape_iff.1 clean), placed⟩
  · intro s catalog source searches last ended
    refine ⟨comes_of_run ended, fun batches dropped comes => ?_⟩
    exact (comes.sorts.exists_root Catalog.Bundled.legible catalog
      (comes.readable source searches)).2

/-- Seven formulas of one operator, of which one is drawn twice. -/
def repeating : Line where
  catalog := Catalog.Bundled.catalog
  source := Catalog.Bundled.catalog
  validator := { catalog := Catalog.Bundled.catalog }
  optimizer := none
  request :=
    { tier := "basic", count := 7, optimize := false, iterations := 1, maxAttempts := 1,
      seed := some 339 }

theorem drops_only_repeats_once : ∃ last batches dropped,
    repeating.run.result = .ok last ∧ repeating.Comes last batches dropped ∧ dropped.length = 1 ∧
    ∀ d ∈ dropped, ∃ a ∈ last.accepted, a.root = d.root := by
  have sizes : (repeating.run.result.toOption.map fun last =>
      (last.accepted.length, last.rejected.length, last.attempts)) = some (6, 0, 1) := by
    decide +kernel
  have generated : ((repeating.generate {}).result.toOption.map List.length) = some 7 := by
    decide +kernel
  obtain ⟨last, ended, sizes⟩ := Option.map_eq_some_iff.1 sizes
  obtain ⟨accepted, rejected, attempts⟩ := by simpa only [Prod.mk.injEq] using sizes
  obtain ⟨ks, drawn, length⟩ := Option.map_eq_some_iff.1 generated
  have ended := except_toOption_eq_some.1 ended
  obtain ⟨comes, only⟩ := (@drops_only_repeats .basic 3).2 repeating rfl rfl nofun last ended
  obtain ⟨batches, dropped, comes⟩ := comes
  refine ⟨last, batches, dropped, ended, comes, ?_, only batches dropped comes⟩
  -- The one batch is what is generated from the start, where nothing is accepted.
  obtain ⟨batch, rfl⟩ := List.length_eq_one_iff.1 (comes.attempts.trans attempts)
  obtain ⟨before, _, first, none, ks', again, improved⟩ := comes.gives 0 batch rfl
  have nothing : before.accepted = [] := by
    have sizes := none.perm.length_eq
    simp only [List.length_append, List.take_zero, List.flatten_nil, List.map_nil,
      List.length_nil] at sizes
    exact List.eq_nil_of_length_eq_zero (by omega)
  have start : repeating.generate before = repeating.generate {} := by
    unfold generate missing options
    rw [first, nothing]
  rw [start, except_toOption_eq_some.1 drawn] at again
  obtain rfl := Except.ok.inj again
  obtain rfl : ks = batch := Except.ok.inj improved
  have sizes := comes.sorts.perm.length_eq
  simp only [List.length_append, List.length_map, List.flatten_singleton] at sizes
  omega

end Pipeline.Line

end AlphaFoundry
