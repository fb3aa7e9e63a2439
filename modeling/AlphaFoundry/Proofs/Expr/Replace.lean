/-
# AlphaFoundry.Proofs.Expr.Replace -- another formula at a path

Replacing is the setter to `nodeAt?`: what was put at a path is found there, putting back what was
there changes nothing, and the later of two replacements at one path counts (`replaceAt_lens`).  A
replacement is not seen from a path that parts from its own, and two at such paths may be made in
either order.  At a path that leaves the formula there is nothing to replace.

The induction is on the path, with the formula general; for two paths it is on where they part
(`Path.Apart`).
-/
import Mathlib
import AlphaFoundry.Proofs.Expr.Outline

namespace AlphaFoundry

set_option autoImplicit false

/-! ## Paths that part -/

namespace Path

/-- Two paths share some steps, and then lead to different arguments. -/
inductive Apart : Path → Path → Prop where
  | part {i j : Nat} (other : i ≠ j) (p q : Path) : Apart (i :: p) (j :: q)
  | step (i : Nat) {p q : Path} (apart : Apart p q) : Apart (i :: p) (i :: q)

/-- Paths part if neither leads through the end of the other. -/
theorem apart_of_neither : ∀ {p q : Path}, ¬p <+: q → ¬q <+: p → Apart p q
  | [], _, first, _ => absurd List.nil_prefix first
  | _ :: _, [], _, second => absurd List.nil_prefix second
  | i :: p, j :: q, first, second => by
      by_cases same : i = j
      · subst same
        refine .step i (apart_of_neither (fun below => first ?_) fun below => second ?_)
        · exact List.cons_prefix_cons.2 ⟨rfl, below⟩
        · exact List.cons_prefix_cons.2 ⟨rfl, below⟩
      · exact .part same p q

end Path

namespace Expr

variable {e n old : Expr} {i j : Nat} {p q : Path}

/-! ## One step down -/

theorem children_replaceAt_cons (e : Expr) (i : Nat) (p : Path) (n : Expr) :
    (e.replaceAt (i :: p) n).children = e.children.modify i fun child => child.replaceAt p n := by
  cases e with
  | field id => exact (List.modify_nil _ i).symm
  | literal value => exact (List.modify_nil _ i).symm
  | apply operator children window => rfl

theorem nodeAt?_replaceAt_cons (e : Expr) (i : Nat) (p : Path) (n : Expr) (q : Path) :
    (e.replaceAt (i :: p) n).nodeAt? (i :: q)
      = e.children[i]?.bind fun child => (child.replaceAt p n).nodeAt? q := by
  rw [nodeAt?_cons, children_replaceAt_cons, List.getElem?_modify]
  cases e.children[i]? with
  | none => rfl
  | some child => simp

/-- The arguments beside the one that is replaced stay. -/
theorem nodeAt?_replaceAt_beside (e : Expr) (other : i ≠ j) (p : Path) (n : Expr) (q : Path) :
    (e.replaceAt (i :: p) n).nodeAt? (j :: q) = e.nodeAt? (j :: q) := by
  rw [nodeAt?_cons, nodeAt?_cons, children_replaceAt_cons, List.getElem?_modify]
  simp [other]

/-- Where an argument stays as it is, or is not there, so does the formula. -/
theorem replaceAt_cons_of_fixed
    (fixed : ∀ child, e.children[i]? = some child → child.replaceAt p n = child) :
    e.replaceAt (i :: p) n = e := by
  cases e with
  | field id => rfl
  | literal value => rfl
  | apply operator children window =>
      rw [replaceAt_cons]
      congr 1
      refine List.ext_getElem? fun j => ?_
      rw [List.getElem?_modify]
      cases at_j : children[j]? with
      | none => rfl
      | some child =>
          by_cases here : i = j
          · subst here
            simpa using fixed child at_j
          · simp [here]

/-! ## One path -/

/-- At and below its path, a replacement is seen and nothing of what it replaced. -/
theorem nodeAt?_replaceAt_append : ∀ {e : Expr} {p : Path}, (e.nodeAt? p).isSome → ∀ r : Path,
    (e.replaceAt p n).nodeAt? (p ++ r) = n.nodeAt? r
  | e, [], _, r => by rw [replaceAt_nil, List.nil_append]
  | e, i :: p, inside, r => by
      rw [List.cons_append, nodeAt?_replaceAt_cons]
      rw [nodeAt?_cons] at inside
      cases at_i : e.children[i]? with
      | none =>
          rw [at_i] at inside
          cases inside
      | some child =>
          rw [at_i] at inside
          exact nodeAt?_replaceAt_append inside r

theorem replaceAt_self : ∀ {e : Expr} {p : Path}, e.nodeAt? p = some old → e.replaceAt p old = e
  | e, [], found => by
      rw [replaceAt_nil]
      exact (Option.some.inj found).symm
  | e, i :: p, found => by
      refine replaceAt_cons_of_fixed fun child at_i => replaceAt_self ?_
      rwa [nodeAt?_cons, at_i] at found

theorem replaceAt_of_nodeAt?_eq_none : ∀ {e : Expr} {p : Path}, e.nodeAt? p = none →
    e.replaceAt p n = e
  | e, [], outside => by cases outside
  | e, i :: p, outside => by
      refine replaceAt_cons_of_fixed fun child at_i => replaceAt_of_nodeAt?_eq_none ?_
      rwa [nodeAt?_cons, at_i] at outside

/-- Of two replacements at one path the later counts, whether or not the path leaves the formula. -/
theorem replaceAt_replaceAt (n m : Expr) : ∀ (e : Expr) (p : Path),
    (e.replaceAt p n).replaceAt p m = e.replaceAt p m
  | e, [] => by rw [replaceAt_nil, replaceAt_nil]
  | .field id, i :: p => rfl
  | .literal value, i :: p => rfl
  | .apply operator children window, i :: p => by
      rw [replaceAt_cons, replaceAt_cons, replaceAt_cons, List.modify_modify_eq]
      congr 2
      funext child
      exact replaceAt_replaceAt n m child p

/-! ## Two paths -/

theorem nodeAt?_replaceAt_of_apart (n : Expr) (apart : p.Apart q) : ∀ e : Expr,
    (e.replaceAt p n).nodeAt? q = e.nodeAt? q := by
  induction apart with
  | part other p q => exact fun e => nodeAt?_replaceAt_beside e other p n q
  | step i _ ih =>
      intro e
      rw [nodeAt?_replaceAt_cons, nodeAt?_cons]
      exact Option.bind_congr fun child _ => ih child

theorem replaceAt_comm (n m : Expr) (apart : p.Apart q) : ∀ e : Expr,
    (e.replaceAt p n).replaceAt q m = (e.replaceAt q m).replaceAt p n := by
  induction apart with
  | part other p q =>
      intro e
      cases e with
      | field id => rfl
      | literal value => rfl
      | apply operator children window =>
          simp only [replaceAt_cons]
          rw [List.modify_modify_ne _ _ _ other]
  | step i _ ih =>
      intro e
      cases e with
      | field id => rfl
      | literal value => rfl
      | apply operator children window =>
          simp only [replaceAt_cons, List.modify_modify_eq]
          congr 2
          exact funext ih

/-- The laws of replacing at a path.  Inside the formula, what was put there is found there, down to
every node of it; putting back the old node changes nothing; and the later of two replacements
counts.  At two paths neither of which leads through the end of the other, neither sees the other,
in the formula or outside of it.  Outside, nothing is replaced. -/
theorem replaceAt_lens (e n m : Expr) (p q : Path) :
    (∀ old, e.nodeAt? p = some old →
      (∀ r, (e.replaceAt p n).nodeAt? (p ++ r) = n.nodeAt? r) ∧
      e.replaceAt p old = e ∧
      (e.replaceAt p n).replaceAt p m = e.replaceAt p m) ∧
    (¬p <+: q → ¬q <+: p →
      (e.replaceAt p n).nodeAt? q = e.nodeAt? q ∧
      (e.replaceAt p n).replaceAt q m = (e.replaceAt q m).replaceAt p n) ∧
    (e.nodeAt? p = none → e.replaceAt p n = e) := by
  refine ⟨fun old found => ⟨?_, replaceAt_self found, replaceAt_replaceAt n m e p⟩,
    fun first second => ?_, replaceAt_of_nodeAt?_eq_none⟩
  · exact nodeAt?_replaceAt_append (by rw [found]; rfl)
  · have apart : p.Apart q := Path.apart_of_neither first second
    exact ⟨nodeAt?_replaceAt_of_apart n apart e, replaceAt_comm n m apart e⟩

/-- Both arguments of a sum replaced, and a third that it does not have. -/
theorem replaceAt_lens_sum :
    let rank : Expr := .apply "rank" [.field "volume"] none
    let sum : Expr := .apply "add" [.field "close", rank] none
    let new : Expr := .apply "delay" [.field "open"] (some 3)
    sum.nodeAt? [1] = some rank ∧ (sum.replaceAt [1] new).nodeAt? [1, 0] = some (.field "open") ∧
      sum.replaceAt [1] rank = sum ∧
      (sum.replaceAt [1] new).replaceAt [1] rank = sum.replaceAt [1] rank ∧
      ¬[1] <+: [0] ∧ ¬[0] <+: [1] ∧ (sum.replaceAt [1] new).nodeAt? [0] = some (.field "close") ∧
      (sum.replaceAt [1] new).replaceAt [0] rank = (sum.replaceAt [0] rank).replaceAt [1] new ∧
      sum.nodeAt? [2] = none ∧ sum.replaceAt [2] new = sum := by
  intro rank sum new
  obtain ⟨inside, apart, -⟩ := replaceAt_lens sum new rank [1] [0]
  obtain ⟨found, self, later⟩ := inside rank rfl
  have first : ¬[1] <+: [0] := by decide
  have second : ¬[0] <+: [1] := by decide
  obtain ⟨unseen, either⟩ := apart first second
  obtain ⟨-, -, outside⟩ := replaceAt_lens sum new rank [2] []
  exact ⟨rfl, found [0], self, later, first, second, unseen, either, rfl, outside rfl⟩

end Expr

end AlphaFoundry
