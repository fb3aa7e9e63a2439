/-
# AlphaFoundry.Proofs.Expr.Measure -- depth, size and all nodes of a formula

Depth and size are defined on the list of visits.  Here they are computed along the formula, and
`All` says of every node what is asked of it: of an application, of itself and of all nodes of its
arguments.
-/
import Mathlib
import AlphaFoundry.Proofs.Expr.Outline

namespace AlphaFoundry

set_option autoImplicit false

theorem maxDepth_le {vs : List Visit} {d : Nat} :
    Visit.maxDepth vs ≤ d ↔ ∀ v ∈ vs, v.depth ≤ d := by
  unfold Visit.maxDepth
  suffices general : ∀ start, vs.foldl (fun d v => max d v.depth) start ≤ d ↔
      start ≤ d ∧ ∀ v ∈ vs, v.depth ≤ d by
    simpa using general 0
  induction vs with
  | nil => simp
  | cons v vs ih =>
      intro start
      rw [List.foldl_cons, ih, max_le_iff, and_assoc, List.forall_mem_cons]

namespace Expr

/-! ## All nodes -/

/-- Every node of a formula has a property. -/
def All (Q : Expr → Prop) (e : Expr) : Prop :=
  ∀ p n, e.nodeAt? p = some n → Q n

variable {Q : Expr → Prop}

theorem All.root {e : Expr} (all : e.All Q) : Q e :=
  all [] e rfl

theorem All.mono {e : Expr} {R : Expr → Prop} (all : e.All Q) (weaker : ∀ n, Q n → R n) :
    e.All R :=
  fun p n found => weaker n (all p n found)

theorem All.below {e n : Expr} {p : Path} (all : e.All Q) (found : e.nodeAt? p = some n) :
    n.All Q := by
  intro q m inside
  refine all (p ++ q) m ?_
  rw [nodeAt?_append, found]
  exact inside

theorem all_iff {e : Expr} : e.All Q ↔ Q e ∧ ∀ child ∈ e.children, child.All Q := by
  constructor
  · refine fun all => ⟨all.root, fun child member p n found => ?_⟩
    obtain ⟨i, bound, rfl⟩ := List.getElem_of_mem member
    refine all (i :: p) n ?_
    rw [nodeAt?_cons, List.getElem?_eq_getElem bound]
    exact found
  · rintro ⟨root, below⟩ (_ | ⟨i, p⟩) n found
    · obtain rfl := Option.some.inj found
      exact root
    · obtain ⟨child, at_i, found⟩ := Option.bind_eq_some_iff.1 found
      exact below child (List.mem_of_getElem? at_i) p n found

theorem all_field {id : String} : (field id).All Q ↔ Q (.field id) := by
  rw [all_iff]
  simp [children]

theorem all_literal {value : Float} : (literal value).All Q ↔ Q (.literal value) := by
  rw [all_iff]
  simp [children]

theorem all_apply {operator : String} {es : List Expr} {window : Option Float} :
    (apply operator es window).All Q ↔
      Q (.apply operator es window) ∧ ∀ child ∈ es, child.All Q :=
  all_iff

/-! ## Depth -/

theorem depth_le {e : Expr} {d : Nat} :
    e.depth ≤ d ↔ ∀ p n, e.nodeAt? p = some n → p.length + 1 ≤ d := by
  unfold depth visits
  rw [maxDepth_le]
  constructor
  · intro each p n found
    have := each _ (mem_visitsFrom.2 ⟨p, n, found, rfl⟩)
    simpa [visitOf, Visit.depth] using this
  · intro each v member
    obtain ⟨p, n, found, rfl⟩ := mem_visitsFrom.1 member
    simpa [visitOf, Visit.depth] using each p n found

theorem depth_pos (e : Expr) : 0 < e.depth := by
  have := depth_le.1 (le_refl e.depth) [] e rfl
  omega

theorem depth_le_iff {e : Expr} {d : Nat} :
    e.depth ≤ d + 1 ↔ ∀ child ∈ e.children, child.depth ≤ d := by
  simp only [depth_le]
  constructor
  · intro each child member p n found
    obtain ⟨i, bound, rfl⟩ := List.getElem_of_mem member
    have := each (i :: p) n (by rw [nodeAt?_cons, List.getElem?_eq_getElem bound]; exact found)
    simpa using this
  · rintro each (_ | ⟨i, p⟩) n found
    · simp
    · obtain ⟨child, at_i, found⟩ := Option.bind_eq_some_iff.1 found
      have := each child (List.mem_of_getElem? at_i) p n found
      simpa using this

theorem depth_field (id : String) : (field id).depth = 1 := by
  have := depth_pos (field id)
  have : (field id).depth ≤ 0 + 1 := depth_le_iff.2 (by simp [children])
  omega

theorem depth_literal (value : Float) : (literal value).depth = 1 := by
  have := depth_pos (literal value)
  have : (literal value).depth ≤ 0 + 1 := depth_le_iff.2 (by simp [children])
  omega

theorem depth_apply (operator : String) (es : List Expr) (window : Option Float) :
    (apply operator es window).depth = (es.map depth).foldr max 0 + 1 := by
  have bound (d : Nat) : (es.map depth).foldr max 0 ≤ d ↔ ∀ child ∈ es, child.depth ≤ d := by
    induction es with
    | nil => simp
    | cons e es ih => simp [ih]
  have le (d : Nat) : (apply operator es window).depth ≤ d + 1 ↔ ∀ child ∈ es, child.depth ≤ d :=
    depth_le_iff
  have pos := depth_pos (apply operator es window)
  have upper := (le _).2 ((bound _).1 le_rfl)
  have lower := (bound _).2 ((le ((apply operator es window).depth - 1)).1 (by omega))
  omega

theorem depth_apply_of_eq {operator : String} {es : List Expr} {window : Option Float} {d : Nat}
    (some_child : es ≠ []) (same : ∀ child ∈ es, child.depth = d) :
    (apply operator es window).depth = d + 1 := by
  obtain ⟨child, member⟩ := List.exists_mem_of_ne_nil es some_child
  have upper : (apply operator es window).depth ≤ d + 1 :=
    depth_le_iff.2 fun child member => (same child member).le
  have pos := depth_pos (apply operator es window)
  have split : (apply operator es window).depth ≤ (apply operator es window).depth - 1 + 1 := by
    omega
  have lower := depth_le_iff.1 split child member
  rw [same child member] at lower
  omega

/-! ## Size -/

theorem length_visitsFrom (e : Expr) (path : Path) (parent : Option String) :
    (visitsFrom path parent e).length = e.nodeCount := by
  rw [visitsFrom_eq_map, List.length_map, nodeCount]

theorem length_childVisits {path : Path} {operator : String} : ∀ (es : List Expr) (i : Nat),
    (childVisits path operator i es).length = (es.map nodeCount).sum
  | [], i => by simp [childVisits]
  | e :: es, i => by
      rw [childVisits, List.length_append, length_visitsFrom, length_childVisits es, List.map_cons,
        List.sum_cons]

theorem nodeCount_apply (operator : String) (es : List Expr) (window : Option Float) :
    (apply operator es window).nodeCount = (es.map nodeCount).sum + 1 := by
  rw [nodeCount, visits, visitsFrom, List.length_cons, length_childVisits]

theorem nodeCount_leaf {e : Expr} (leaf : e.children = []) : e.nodeCount = 1 := by
  cases e with
  | field id => rw [nodeCount, visits, visitsFrom, List.length_singleton]
  | literal value => rw [nodeCount, visits, visitsFrom, List.length_singleton]
  | apply operator es window =>
      obtain rfl : es = [] := leaf
      rw [nodeCount_apply]
      rfl

/-- Nodes with at most two arguments make a formula smaller than a full binary tree. -/
theorem nodeCount_lt (e : Expr) : ∀ {d : Nat}, e.depth ≤ d →
    e.All (fun n => n.children.length ≤ 2) → e.nodeCount < 2 ^ d := by
  induction e using Expr.induction with
  | field id =>
      intro d shallow _
      rw [nodeCount_leaf rfl]
      rw [depth_field] at shallow
      exact Nat.one_lt_two_pow (by omega)
  | literal value =>
      intro d shallow _
      rw [nodeCount_leaf rfl]
      rw [depth_literal] at shallow
      exact Nat.one_lt_two_pow (by omega)
  | apply operator es window ih =>
      intro d shallow narrow
      obtain ⟨d, rfl⟩ : ∃ d', d = d' + 1 := by
        have := depth_pos (apply operator es window)
        exact ⟨d - 1, by omega⟩
      obtain ⟨width, below⟩ := all_apply.1 narrow
      have width : es.length ≤ 2 := width
      have less : ∀ child ∈ es, child.nodeCount ≤ 2 ^ d - 1 := by
        intro child member
        have := ih child member (depth_le_iff.1 shallow child member) (below child member)
        omega
      have sum : (es.map nodeCount).sum ≤ es.length * (2 ^ d - 1) := by
        have := List.sum_le_card_nsmul (es.map nodeCount) (2 ^ d - 1) (by simpa using less)
        simpa using this
      have twice : es.length * (2 ^ d - 1) ≤ 2 * (2 ^ d - 1) := Nat.mul_le_mul_right _ width
      have positive := Nat.two_pow_pos d
      rw [nodeCount_apply, pow_succ]
      omega

end Expr

end AlphaFoundry
