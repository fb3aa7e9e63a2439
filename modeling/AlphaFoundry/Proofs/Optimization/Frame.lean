/-
# AlphaFoundry.Proofs.Optimization.Frame -- what a search leaves alone

A mutation puts a label of the same kind at one path, and this path is neither that of a wrapping
operator nor that of an argument of one behind its first.  Formulas that differ by such labels have
the `SameFrame`.  A mutant of a well-built formula is well built, whatever a validator says of it, so
the frame is carried from one best formula of a search to the next, by induction on the rounds.
-/
import Mathlib
import AlphaFoundry.Proofs.Generation.Wrapping
import AlphaFoundry.Proofs.Optimization.Ascent
import AlphaFoundry.Proofs.Optimization.Mutation

namespace AlphaFoundry

set_option autoImplicit false

/-! ## Frames -/

/-- Two fields, one literal, or two operators of the same arity and role; an operator that has a
role is the same one, with the same window. -/
inductive Label.Alike (c : Catalog) : Label → Label → Prop where
  | field (id other : String) : Alike c (.field id) (.field other)
  | literal (value : Float) : Alike c (.literal value) (.literal value)
  | apply {operator other : String} {window moved : Option Float}
      (arity : (c.operator? other).map Operator.arity = (c.operator? operator).map Operator.arity)
      (role : c.roleOf other = c.roleOf operator)
      (wrapping : c.roleOf operator ≠ none → other = operator ∧ moved = window) :
      Alike c (.apply operator window) (.apply other moved)

namespace Label.Alike

variable {c : Catalog} {l m n : Label}

theorem refl (l : Label) : Alike c l l := by
  cases l with
  | field id => exact .field id id
  | literal value => exact .literal value
  | apply operator window => exact .apply rfl rfl fun _ => ⟨rfl, rfl⟩

theorem trans (first : Alike c l m) (later : Alike c m n) : Alike c l n := by
  cases first with
  | field id other =>
      cases later with
      | field _ third => exact .field id third
  | literal value => exact later
  | apply arity role wrapping =>
      cases later with
      | apply arity' role' wrapping' =>
          refine .apply (arity'.trans arity) (role'.trans role) fun wraps => ?_
          obtain ⟨rfl, rfl⟩ := wrapping wraps
          exact wrapping' wraps

end Label.Alike

namespace Outline

/-- The same paths with labels alike.  An argument of a wrapping operator behind its first is the
same field, if it is one. -/
structure SameFrame (c : Catalog) (t u : Outline) : Prop where
  paths : ∀ p, (u p).isSome = (t p).isSome
  labels : ∀ p l m, t p = some l → u p = some m → Label.Alike c l m
  groups : ∀ p i operator window id, t p = some (.apply operator window) →
    c.roleOf operator ≠ none → 0 < i → t (p ++ [i]) = some (.field id) →
      u (p ++ [i]) = some (.field id)

namespace SameFrame

variable {c : Catalog} {t u w : Outline} {p : Path} {l : Label}

theorem refl (t : Outline) : SameFrame c t t where
  paths _ := rfl
  labels p l m left right := by
    obtain rfl := Option.some.inj (left.symm.trans right)
    exact .refl l
  groups _ _ _ _ _ _ _ _ field := field

theorem exists_alike (same : SameFrame c t u) (labelled : t p = some l) :
    ∃ m, u p = some m ∧ Label.Alike c l m := by
  obtain ⟨m, relabelled⟩ := Option.isSome_iff_exists.1 ((same.paths p).trans (by rw [labelled]; rfl))
  exact ⟨m, relabelled, same.labels p l m labelled relabelled⟩

/-- Wrapping operators stay where they are. -/
theorem wrapping (same : SameFrame c t u) {operator : String} {window : Option Float}
    (labelled : t p = some (.apply operator window)) (wraps : c.roleOf operator ≠ none) :
    u p = some (.apply operator window) := by
  obtain ⟨m, relabelled, alike⟩ := same.exists_alike labelled
  cases alike with
  | apply _ _ unchanged =>
      obtain ⟨rfl, rfl⟩ := unchanged wraps
      exact relabelled

theorem trans (first : SameFrame c t u) (later : SameFrame c u w) : SameFrame c t w where
  paths p := (later.paths p).trans (first.paths p)
  labels p l n left right := by
    obtain ⟨m, middle, alike⟩ := first.exists_alike left
    exact alike.trans (later.labels p m n middle right)
  groups p i operator window id labelled wraps behind field := by
    refine later.groups p i operator window id (first.wrapping labelled wraps) wraps behind ?_
    exact first.groups p i operator window id labelled wraps behind field

/-- A label alike in place of one that is no argument of a wrapping operator behind its first. -/
theorem put {new : Label} (old : t p = some l) (alike : Label.Alike c l new)
    (inner : ∀ q i operator window, p = q ++ [i] → t q = some (.apply operator window) →
      c.roleOf operator ≠ none → i = 0) : SameFrame c t (t.put p new) where
  paths := isSome_put old
  labels q m n left right := by
    by_cases here : q = p
    · subst here
      rw [put_self] at right
      obtain rfl := Option.some.inj (old.symm.trans left)
      obtain rfl := Option.some.inj right
      exact alike
    · rw [put_of_ne _ _ here] at right
      obtain rfl := Option.some.inj (left.symm.trans right)
      exact .refl m
  groups q i operator window id labelled wraps behind field := by
    rw [put_of_ne]
    · exact field
    · intro here
      have first := inner q i operator window here.symm labelled wraps
      omega

end SameFrame

end Outline

namespace Expr

variable {c : Catalog} {e e' : Expr}

theorem nodeCount_eq_of_paths (same : ∀ p, (e'.outline p).isSome = (e.outline p).isSome) :
    e'.nodeCount = e.nodeCount := by
  have mem_paths (e : Expr) (p : Path) : p ∈ e.visits.map Visit.path ↔ (e.outline p).isSome := by
    rw [List.mem_map]
    refine ⟨?_, fun labelled => e.visits_list.covers p labelled⟩
    rintro ⟨v, member, rfl⟩
    rw [(e.visits_list.sees v member).label]
    rfl
  have perm : (e'.visits.map Visit.path).Perm (e.visits.map Visit.path) := by
    refine (List.perm_ext_iff_of_nodup e'.visits_list.once e.visits_list.once).2 fun p => ?_
    rw [mem_paths, mem_paths, same]
  simpa [nodeCount] using perm.length_eq

theorem depth_eq_of_paths (same : ∀ p, (e'.outline p).isSome = (e.outline p).isSome) :
    e'.depth = e.depth := by
  have le {e e' : Expr} (same : ∀ p, (e'.outline p).isSome = (e.outline p).isSome) :
      e'.depth ≤ e.depth := by
    refine depth_le.2 fun p n found => ?_
    have labelled : (e.outline p).isSome := by
      rw [← same, outline, found]
      rfl
    rw [outline, Option.isSome_map] at labelled
    obtain ⟨n', found'⟩ := Option.isSome_iff_exists.1 labelled
    exact depth_le.1 le_rfl p n' found'
  exact le_antisymm (le same) (le fun p => (same p).symm)

theorem eq_apply_of_label {operator : String} {window : Option Float}
    (labelled : e.outline [] = some (.apply operator window)) :
    e = apply operator e.children window := by
  have label : e.label = .apply operator window := Option.some.inj labelled
  cases e with
  | field id => cases label
  | literal value => cases label
  | apply operator' children window' =>
      obtain ⟨rfl, rfl⟩ := Label.apply.inj label
      rfl

theorem children_length_eq (same : ∀ i, (e'.outline [i]).isSome = (e.outline [i]).isSome) :
    e'.children.length = e.children.length := by
  have bound (e : Expr) (i : Nat) : (e.outline [i]).isSome ↔ i < e.children.length :=
    isSome_outline_below (p := []) rfl i
  refine eq_of_forall_lt_iff fun i => ?_
  rw [← bound, ← bound, same]

/-- A formula with the frame of a wrapped one is wrapped in the same way. -/
theorem exists_wrapped {neutralize normalize group : String} {inner : Expr}
    (same : Outline.SameFrame c
      (apply normalize [apply neutralize [inner, field group] none] none).outline e.outline)
    (normalizes : c.roleOf normalize ≠ none) (neutralizes : c.roleOf neutralize ≠ none) :
    ∃ inner', e = apply normalize [apply neutralize [inner', field group] none] none := by
  have single : e.children.length = 1 := children_length_eq fun i => same.paths [i]
  obtain ⟨below, only⟩ := List.length_eq_one_iff.1 single
  have root := eq_apply_of_label (same.wrapping (p := []) rfl normalizes)
  rw [only] at root
  subst root
  have double : below.children.length = 2 :=
    children_length_eq (e := apply neutralize [inner, field group] none) fun i => same.paths [0, i]
  obtain ⟨inner', last, pair⟩ := List.length_eq_two.1 double
  have neutralized : below.outline [] = some (.apply neutralize none) :=
    same.wrapping (p := [0]) rfl neutralizes
  have grouped : below.outline [1] = some (.field group) :=
    same.groups [0] 1 neutralize none group rfl neutralizes Nat.one_pos rfl
  rw [outline_cons, pair] at grouped
  have label : last.label = .field group := Option.some.inj grouped
  have last_eq : last = field group := by
    cases last <;> simp_all [Expr.label]
  refine ⟨inner', ?_⟩
  rw [eq_apply_of_label neutralized, pair, last_eq]

end Expr

/-! ## Mutants -/

namespace Mutation

variable {c : Catalog} {e e' : Expr} {r s : Rng} {tier : Tier}

/-- Right below a wrapping operator, only the first argument may be changed. -/
theorem Target.eq_zero_of_wrapping {v : Visit} {n : Expr} (target : Target c e v n) {q : Path}
    {i : Nat} {operator : String} {window : Option Float} (path : v.path = q ++ [i])
    (above : e.outline q = some (.apply operator window)) (wraps : c.roleOf operator ≠ none) :
    i = 0 := by
  have outer := target.inner
  have parent : v.parent = some operator := by
    rw [target.sees.parent, path, Outline.above, if_neg (by simp), List.dropLast_concat, above]
    rfl
  have position : v.position = i := by
    rw [Visit.position, path, List.getLastD_concat]
  rw [Score.isGroupArgument, parent, position] at outer
  simpa [Option.isSome_iff_ne_none, wraps] using outer

theorem Target.put_sameFrame {v : Visit} {n : Expr} (target : Target c e v n) {new : Label}
    (alike : Label.Alike c n.label new) :
    Outline.SameFrame c e.outline (e.outline.put v.path new) :=
  .put (target.label ▸ target.sees.label) alike fun _ _ _ _ => target.eq_zero_of_wrapping

/-- An operator that is swapped in has the arity of the one before it, and neither has a role. -/
theorem alike_of_mem {v : Visit} {operator : String} {children : List Expr}
    {window moved : Option Float} {op : Operator} (built : e.outline.WellBuilt c tier)
    (target : Target c e v (.apply operator children window))
    (member : op ∈ operatorAlternatives c v) :
    Label.Alike c (.apply operator window) (.apply op.id moved) := by
  have label : v.label = .apply operator window := target.label
  obtain ⟨current, found, -, -⟩ := built.nodes _ _ (label ▸ target.sees.label)
  have stands := standsFor_of_mem label found member
  have known : c.operator? op.id = some op := Catalog.operator?_eq_some.2 ⟨stands.listed, rfl⟩
  have plain : c.roleOf operator = none := by
    have := target.plain
    rw [label] at this
    exact this
  refine .apply ?_ ?_ fun wraps => absurd plain wraps
  · rw [known, found, Option.map_some, Option.map_some, stands.arity]
  · rw [plain, Catalog.roleOf, known]
    exact stands.plain

/-- A mutant of a well-built formula is well built, and has its frame. -/
theorem apply_sameFrame {m : Mutation} (built : e.outline.WellBuilt c tier)
    (mutant : (m.apply c e r).1 = some e') :
    e'.outline.WellBuilt c tier ∧ Outline.SameFrame c e.outline e'.outline := by
  cases m with
  | swapField =>
      obtain ⟨v, n, f, target, member, rfl⟩ := replaceField_eq mutant
      obtain ⟨id, rfl, -, edit⟩ := replaces_field built target member
      rw [Expr.outline_replaceAt (.field f.id) target.found rfl]
      exact ⟨built.put edit, target.put_sameFrame (.field id f.id)⟩
  | swapOperator =>
      obtain ⟨v, operator, children, window, op, target, member, rfl⟩ := replaceOperator_eq mutant
      obtain ⟨-, edit⟩ := replaces_operator built target member
      rw [Expr.outline_replaceAt (.apply op.id children _) target.found rfl]
      exact ⟨built.put edit, target.put_sameFrame (alike_of_mem built target member)⟩
  | adjustWindow =>
      obtain ⟨v, operator, children, window, range, s, new, target, ranged, moves, -, rfl⟩ :=
        replaceWindow_eq mutant
      obtain ⟨-, edit⟩ := replaces_window built target ranged moves
      have plain : c.roleOf operator = none := edit.unwrapped
      rw [Expr.outline_replaceAt (.apply operator children (some new)) target.found rfl]
      refine ⟨built.put edit, target.put_sameFrame ?_⟩
      exact .apply rfl rfl fun wraps => absurd plain wraps

theorem exists_apply_of_tryAll : ∀ {n : Nat} {ms : List Mutation} {r : Rng} {m : Mutation},
    (tryAll c n ms e r).1 = some (m, e') → ∃ s, (m.apply c e s).1 = some e'
  | 0, _, _, _, made => by cases made
  | n + 1, ms, r, m, made => by
      unfold tryAll at made
      dsimp only at made
      split at made
      · cases made
      split at made
      · cases made
      split at made
      · rename_i mutant _ applied
        obtain ⟨rfl, rfl⟩ := Prod.mk.inj (Option.some.inj made)
        exact ⟨_, congrArg Prod.fst applied⟩
      · exact exists_apply_of_tryAll made

end Mutation

/-! ## Searches -/

namespace Search.Setting

variable {s : Setting} {k : Climb}

/-- The best formula behind some tries is the one before them, or a mutant of it. -/
theorem tryMutants_best : ∀ (n : Nat) (k : Climb), (s.tryMutants n k).1.best = k.best ∨
    ∃ (m : Mutation) (r : Rng), (m.apply s.catalog k.best r).1 = some (s.tryMutants n k).1.best
  | 0, k => .inl rfl
  | n + 1, k => by
      unfold tryMutants
      split
      · exact .inl rfl
      · rename_i m mutant rng made
        dsimp only
        split
        · split
          · obtain ⟨r, applied⟩ := Mutation.exists_apply_of_tryAll (congrArg Prod.fst made)
            exact .inr ⟨m, r, applied⟩
          · exact .inl rfl
        · exact tryMutants_best n _

theorem after_sameFrame (built : k.best.outline.WellBuilt s.catalog s.tier) (n : Nat) :
    (s.after k n).best.outline.WellBuilt s.catalog s.tier ∧
      Outline.SameFrame s.catalog k.best.outline (s.after k n).best.outline := by
  induction n with
  | zero => exact ⟨built, .refl _⟩
  | succ n ih =>
      obtain ⟨built, frame⟩ := ih
      rw [after_succ]
      have round : (s.round (s.after k n)).1.best = (s.tryMutants s.retries (s.after k n)).1.best :=
        rfl
      rw [round]
      rcases tryMutants_best (s := s) s.retries (s.after k n) with same | ⟨m, r, mutant⟩
      · rw [same]
        exact ⟨built, frame⟩
      · obtain ⟨built, step⟩ := Mutation.apply_sameFrame built mutant
        exact ⟨built, frame.trans step⟩

end Search.Setting

/-! ## What a search returns -/

namespace Optimizer

open Generation

/-- What the best candidate of a search has from the one that the search began with. -/
structure KeepsFrame (c : Catalog) (k best : Candidate) : Prop where
  frame : Outline.SameFrame c k.root.outline best.root.outline
  depth : best.root.depth = k.root.depth
  nodeCount : best.root.nodeCount = k.root.nodeCount
  id : best.id = k.id
  tier : best.tier = k.tier
  skeletonId : best.skeletonId = k.skeletonId
  neutralization : best.neutralization = k.neutralization
  normalization : best.normalization = k.normalization

/-- The operators of the two roles are still around the formula, the neutralizing one with the
group that the candidate names. -/
def IsWrapped (c : Catalog) (k : Candidate) : Prop :=
  ∃ neutralize normalize inner,
    c.operatorForRole .neutralize = some neutralize ∧
    c.operatorForRole .normalize = some normalize ∧
    k.root = .apply normalize.id [.apply neutralize.id [inner, .field k.neutralization] none] none

variable {c : Catalog} {k best : Candidate}

theorem KeepsFrame.isWrapped (keeps : KeepsFrame c k best) {w : Wrapping} {inner : Expr}
    (sound : w.Sound c) (wrapped : k.root = w.wrap inner) (group : k.neutralization = w.group) :
    IsWrapped c best := by
  have frame := keeps.frame
  rw [wrapped] at frame
  obtain ⟨inner', root⟩ := Expr.exists_wrapped frame (by simp [sound.normalize_role])
    (by simp [sound.neutralize_role])
  refine ⟨w.neutralize, w.normalize, inner', sound.neutralize, sound.normalize, ?_⟩
  rw [root, keeps.neutralization, group]

/-- From a candidate that the built-in rules accept, a search by any rules returns one with the same
frame.  In particular, a candidate that was wrapped for submission still is. -/
theorem search_keepsFrame (a : Optimizer) (k : Candidate) {iterations cap : Float} {budget : ℕ}
    (whole : Number.toInt? iterations = some (budget : ℤ))
    (conforms : (({ catalog := a.catalog, cap } : Validator).validate k).accepted = true)
    (accepted : (a.validator.validate k).accepted = true) :
    ∃ out, (a.search k iterations).result = .ok out ∧ KeepsFrame a.catalog k out.best ∧
      ∀ count o p, (plan a.catalog "optimize" count o).result = .ok p →
        k ∈ p.yield.candidates → IsWrapped a.catalog out.best := by
  obtain ⟨n, reason, -, ended⟩ := exists_search whole accepted
  have built : k.root.outline.WellBuilt a.catalog k.tier :=
    (k.root.survey_shows.accepted_iff.1 conforms).toWellBuilt
  obtain ⟨-, frame⟩ := Search.Setting.after_sameFrame (s := a.setting k.tier) (k := a.start k) built n
  refine ⟨_, ended, ?_⟩
  have keeps : KeepsFrame a.catalog k (a.validator.review
      { k with
        root := ((a.setting k.tier).after (a.start k) n).best
        score := ((a.setting k.tier).after (a.start k) n).grade.toFloat }) :=
    { frame
      depth := Expr.depth_eq_of_paths frame.paths
      nodeCount := Expr.nodeCount_eq_of_paths frame.paths
      id := rfl
      tier := rfl
      skeletonId := rfl
      neutralization := rfl
      normalization := rfl }
  refine ⟨keeps, fun count o p made yielded => ?_⟩
  obtain ⟨w, inner, sound, wrapped, group⟩ := Batch.exists_wrap made yielded
  exact keeps.isWrapped sound wrapped group

theorem search_keepsFrame_small : ∃ p k out,
    (plan Catalog.small "optimize" 1 {}).result = .ok p ∧ k ∈ p.yield.candidates ∧
    (Optimizer.search ⟨Catalog.small, { catalog := Catalog.small }, { seed := 3 }⟩ k 12).result
      = .ok out ∧
    out.best.root.nodeCount = k.root.nodeCount ∧ IsWrapped Catalog.small out.best := by
  set a : Optimizer := ⟨Catalog.small, { catalog := Catalog.small }, { seed := 3 }⟩
  obtain ⟨p, k, made, yielded⟩ :=
    Batch.exists_candidate Catalog.small "optimize" 1 {} (by decide +kernel)
  have all : ((plan Catalog.small "optimize" 1 {}).result.toOption.map fun p =>
      p.yield.candidates.all fun k => (a.validator.validate k).accepted) = some true := by
    decide +kernel
  rw [made] at all
  have accepted : (a.validator.validate k).accepted = true :=
    List.all_eq_true.1 (Option.some.inj all) k yielded
  have whole : Number.toInt? 12 = some (12 : ℕ) := by decide +kernel
  obtain ⟨out, ended, keeps, wrapped⟩ := search_keepsFrame a k whole accepted accepted
  exact ⟨p, k, out, made, yielded, ended, keeps.nodeCount, wrapped 1 {} p made yielded⟩

end Optimizer

end AlphaFoundry
