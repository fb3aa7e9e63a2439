/-
# AlphaFoundry.Proofs.Validation.Typing -- conditions on nodes, carried along a formula

What the rules ask of paths is asked here of nodes: that a node is in order by itself, that its
arguments have domains it takes, and that no role is involved.  A generator establishes this node by
node; together with bounds on depth and size it is all that the rules ask apart from field usage.
-/
import Mathlib
import AlphaFoundry.Proofs.Validation.Conformance

namespace AlphaFoundry

set_option autoImplicit false

namespace Expr

variable (c : Catalog)

/-- The id of a node is known, and it has the arguments and the window that its operator takes. -/
def InOrder : Expr → Prop
  | .field id => ∃ f, c.field? id = some f
  | .literal value => value.isFinite = true
  | .apply operator es window => ∃ op, c.operator? operator = some op ∧
      es.length = op.arity.childCount ∧ op.WindowFits window

/-- Every argument has a domain that its slot accepts. -/
def Takes : Expr → Prop
  | .apply operator es _ => ∀ op, c.operator? operator = some op →
      ∀ i child, es[i]? = some child → ∃ d, child.label.domain? c = some d ∧ d ∈ op.slot i
  | _ => True

/-- The node does not wrap anything. -/
def Plain (n : Expr) : Prop :=
  n.label.role? c = none

/-- A node without a literal. -/
def NotLiteral : Expr → Prop
  | .literal _ => False
  | _ => True

variable {c} {tier : Tier} {e n : Expr} {p : Path}

theorem outline_eq_some {l : Label} :
    e.outline p = some l ↔ ∃ n, e.nodeAt? p = some n ∧ n.label = l :=
  Option.map_eq_some_iff

theorem isSome_outline_below (found : e.nodeAt? p = some n) (i : Nat) :
    (e.outline (p ++ [i])).isSome ↔ i < n.children.length := by
  rw [outline_append found, ← children_getElem?]
  simp

theorem nodeFits_of_inOrder (found : e.nodeAt? p = some n) (inOrder : n.InOrder c) :
    e.outline.NodeFits c p n.label := by
  cases n with
  | field id => exact inOrder
  | literal value => exact inOrder
  | apply operator es window =>
      obtain ⟨op, known, count, takes⟩ := inOrder
      refine ⟨op, known, fun i => ?_, takes⟩
      rw [isSome_outline_below found, ← count]
      rfl

theorem inOrder_of_nodeFits (found : e.nodeAt? p = some n)
    (fits : e.outline.NodeFits c p n.label) : n.InOrder c := by
  cases n with
  | field id => exact fits
  | literal value => exact fits
  | apply operator es window =>
      obtain ⟨op, known, arguments, takes⟩ := fits
      refine ⟨op, known, eq_of_forall_lt_iff fun i => ?_, takes⟩
      rw [← arguments, isSome_outline_below found]
      rfl

theorem all_inOrder_of_nodeFits (fits : ∀ p l, e.outline p = some l → e.outline.NodeFits c p l) :
    e.All (InOrder c) := fun p n found =>
  inOrder_of_nodeFits found (fits p n.label (outline_eq_some.2 ⟨n, found, rfl⟩))

theorem outline_below_eq_some (found : e.nodeAt? p = some n) {i : Nat} {l : Label} :
    e.outline (p ++ [i]) = some l ↔ ∃ child, n.children[i]? = some child ∧ child.label = l := by
  rw [outline_append found, ← children_getElem?, List.getElem?_map]
  exact Option.map_eq_some_iff

theorem argumentsFit_of_takes (found : e.nodeAt? p = some n) (takes : n.Takes c) :
    e.outline.ArgumentsFit c p n.label := by
  intro op i child accepted d applied below slot domain
  cases n with
  | field id => cases applied
  | literal value => cases applied
  | apply operator es window =>
      obtain ⟨argument, at_i, rfl⟩ := (outline_below_eq_some found).1 below
      obtain ⟨d', domain', member⟩ := takes op applied i argument at_i
      obtain rfl := Option.some.inj (domain.symm.trans domain')
      simpa [Operator.slot, slot] using member

theorem limitFindings_eq_nil (shallow : e.depth ≤ 8) (small : e.nodeCount ≤ 48) :
    Rules.limitFindings e.visits = [] := by
  unfold Rules.limitFindings
  rw [List.append_eq_nil_iff, ite_singleton_eq_nil, ite_singleton_eq_nil]
  exact ⟨not_lt.2 shallow, not_lt.2 small⟩

/-- Formulas without roles are well built if all of their nodes are. -/
theorem wellBuilt_of_all (ordered : e.All (InOrder c)) (takes : e.All (Takes c))
    (plain : e.All (Plain c)) (shallow : e.depth ≤ 8) (small : e.nodeCount ≤ 48) :
    e.outline.WellBuilt c tier := by
  have nodes : ∀ p l, e.outline p = some l → e.outline.NodeFits c p l := by
    intro p l labelled
    obtain ⟨n, found, rfl⟩ := outline_eq_some.1 labelled
    exact nodeFits_of_inOrder found (ordered p n found)
  have arguments : ∀ p l, e.outline p = some l → e.outline.ArgumentsFit c p l := by
    intro p l labelled
    obtain ⟨n, found, rfl⟩ := outline_eq_some.1 labelled
    exact argumentsFit_of_takes found (takes p n found)
  obtain ⟨depth, size⟩ := e.visits_list.limitFindings_eq_nil.1 (limitFindings_eq_nil shallow small)
  refine ⟨nodes, (Outline.argumentsFit_iff nodes).1 arguments, depth, size, ?_⟩
  intro _ p operator window role labelled held
  obtain ⟨n, found, label⟩ := outline_eq_some.1 labelled
  have unwrapped := plain p n found
  rw [Plain, label] at unwrapped
  have unwrapped : c.roleOf operator = none := unwrapped
  rw [unwrapped] at held
  cases held

theorem children_le_two (inOrder : n.InOrder c) : n.children.length ≤ 2 := by
  cases n with
  | field id => simp [children]
  | literal value => simp [children]
  | apply operator es window =>
      obtain ⟨op, -, count, -⟩ := inOrder
      have count : (apply operator es window).children.length = op.arity.childCount := count
      rw [count]
      cases op.arity <;> simp [Arity.childCount]

end Expr

end AlphaFoundry
