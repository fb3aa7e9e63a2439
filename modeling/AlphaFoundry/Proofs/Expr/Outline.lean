/-
# AlphaFoundry.Proofs.Expr.Outline -- formulas as labelled paths

Rules speak about nodes, and a node is known by its path.  An `Outline` gives each path its label,
so that a condition on a formula can be said without saying how the formula is walked.  A list of
visits lists an outline if it holds one visit for every labelled path, with what stands around the
node.  `visits` lists the outline of a formula; the walk of a graph lists the graph's.
-/
import Mathlib
import AlphaFoundry.Expr.Graph

namespace AlphaFoundry

set_option autoImplicit false

/-! ## Paths in pre-order -/

namespace Path

/-- One path parts from another to the left of it. -/
def LeftOf (p q : Path) : Prop :=
  ∃ r m n, m < n ∧ r ++ [m] <+: p ∧ r ++ [n] <+: q

/-- Pre-order is the lexicographic order: a node comes before those below it. -/
theorem lt_of_prefix {p q : Path} {n : Nat} (longer : p ++ [n] <+: q) : p < q := by
  obtain ⟨s, rfl⟩ := longer
  have less : p ++ [] < p ++ n :: s := List.append_left_lt (List.nil_lt_cons n s)
  rwa [List.append_nil, ← List.singleton_append, ← List.append_assoc] at less

namespace LeftOf

variable {p q : Path}

theorem lt (left : LeftOf p q) : p < q := by
  obtain ⟨r, m, n, less, ⟨s, rfl⟩, ⟨t, rfl⟩⟩ := left
  rw [List.append_assoc, List.append_assoc]
  exact List.append_left_lt (List.cons_lt_cons_iff.2 (.inl less))

theorem mono (left : LeftOf p q) {p' q' : Path} (first : p <+: p') (second : q <+: q') :
    LeftOf p' q' := by
  obtain ⟨r, m, n, less, onLeft, onRight⟩ := left
  exact ⟨r, m, n, less, onLeft.trans first, onRight.trans second⟩

theorem of_lt (r : Path) {m n : Nat} (less : m < n) : LeftOf (r ++ [m]) (r ++ [n]) :=
  ⟨r, m, n, less, List.prefix_rfl, List.prefix_rfl⟩

end LeftOf

end Path

theorem zipIdx_ordered {α : Type} (xs : List α) :
    xs.zipIdx.Pairwise fun x y => x.2 < y.2 := by
  have places := List.pairwise_lt_range' (s := 0) (n := xs.length)
  rwa [← List.zipIdx_map_snd 0 xs, List.pairwise_map] at places

/-! ## Outlines -/

/-- The labels of a formula by path; no label outside the formula. -/
abbrev Outline := Path → Option Label

namespace Outline

variable (t : Outline)

/-- The operator above a path. -/
def above (p : Path) : Option String :=
  if p = [] then none else (t p.dropLast).bind Label.operator?

/-- A visit tells the label at its path, those directly below, and the operator above. -/
structure Sees (v : Visit) : Prop where
  label : t v.path = some v.label
  children : ∀ i, v.children[i]? = t (v.path ++ [i])
  parent : v.parent = t.above v.path

/-- Another label at a path. -/
def put (p : Path) (l : Label) : Outline :=
  Function.update t p (some l)

theorem put_self (p : Path) (l : Label) : t.put p l p = some l := by
  rw [put, Function.update_self]

theorem put_of_ne {p q : Path} (l : Label) (other : q ≠ p) : t.put p l q = t q := by
  rw [put, Function.update_of_ne other]

/-- One visit for every labelled path, in any order. -/
structure ListedBy (vs : List Visit) : Prop where
  sees : ∀ v ∈ vs, t.Sees v
  covers : ∀ p, (t p).isSome → ∃ v ∈ vs, v.path = p
  once : (vs.map Visit.path).Nodup

variable {t}

/-- What a visit tells is settled by its path. -/
theorem Sees.unique {v w : Visit} (sees : t.Sees v) (sees' : t.Sees w) (path : v.path = w.path) :
    v = w := by
  obtain ⟨label, children, parent⟩ := sees
  obtain ⟨label', children', parent'⟩ := sees'
  obtain ⟨place, l, ls, above⟩ := v
  obtain ⟨_, l', ls', above'⟩ := w
  obtain rfl := path
  obtain rfl := Option.some.inj (label.symm.trans label')
  obtain rfl := parent.trans parent'.symm
  obtain rfl := List.ext_getElem? fun i => (children i).trans (children' i).symm
  rfl

/-- There is one list of an outline in pre-order. -/
theorem ListedBy.eq_of_ordered {vs ws : List Visit} (listed : t.ListedBy vs)
    (listed' : t.ListedBy ws) (ordered : (vs.map Visit.path).Pairwise (· < ·))
    (ordered' : (ws.map Visit.path).Pairwise (· < ·)) : vs = ws := by
  have within {vs ws : List Visit} (listed : t.ListedBy vs) (listed' : t.ListedBy ws) :
      ∀ v ∈ vs, v ∈ ws := by
    intro v member
    have sees := listed.sees v member
    obtain ⟨w, member', path⟩ := listed'.covers v.path (by rw [sees.label]; rfl)
    rwa [sees.unique (listed'.sees w member') path.symm]
  rw [List.pairwise_map] at ordered ordered'
  refine List.Perm.eq_of_pairwise (fun v w _ _ less more => absurd more less.not_gt) ordered
    ordered' ((List.perm_ext_iff_of_nodup listed.once.of_map listed'.once.of_map).2 fun v =>
      ⟨within listed listed' v, within listed' listed v⟩)

end Outline

namespace Expr

/-- Induction on a formula and all of its arguments. -/
@[elab_as_elim]
theorem induction {motive : Expr → Prop} (field : ∀ id, motive (.field id))
    (literal : ∀ value, motive (.literal value))
    (apply : ∀ operator children window, (∀ e ∈ children, motive e) →
      motive (.apply operator children window)) (e : Expr) : motive e :=
  match e with
  | .field id => field id
  | .literal value => literal value
  | .apply operator children window =>
      apply operator children window fun e _ => induction field literal apply e

def outline (e : Expr) : Outline := fun p =>
  (e.nodeAt? p).map label

theorem nodeAt?_cons (e : Expr) (i : Nat) (p : Path) :
    e.nodeAt? (i :: p) = e.children[i]?.bind fun child => child.nodeAt? p := rfl

theorem outline_nil (e : Expr) : e.outline [] = some e.label := rfl

theorem outline_cons (e : Expr) (i : Nat) (p : Path) :
    e.outline (i :: p) = e.children[i]?.bind fun child => child.outline p := by
  unfold outline
  rw [nodeAt?_cons, Option.map_bind]
  rfl

theorem nodeAt?_append (e : Expr) (p q : Path) :
    e.nodeAt? (p ++ q) = (e.nodeAt? p).bind fun n => n.nodeAt? q := by
  induction p generalizing e with
  | nil => rfl
  | cons i p ih =>
      rw [List.cons_append, nodeAt?_cons, nodeAt?_cons, Option.bind_assoc]
      exact Option.bind_congr fun child _ => ih child

/-! ## Visits -/

theorem mem_childVisits {path : Path} {operator : String} {v : Visit} :
    ∀ {i : Nat} {es : List Expr}, v ∈ childVisits path operator i es ↔
      ∃ n e, es[n]? = some e ∧ v ∈ visitsFrom (path ++ [i + n]) (some operator) e
  | i, [] => by simp [childVisits]
  | i, e :: rest => by
      rw [childVisits, List.mem_append, mem_childVisits]
      constructor
      · rintro (first | ⟨n, e', found, later⟩)
        · exact ⟨0, e, rfl, first⟩
        · exact ⟨n + 1, e', found, by rwa [show i + (n + 1) = i + 1 + n by omega]⟩
      · rintro ⟨_ | n, e', found, member⟩
        · obtain rfl := Option.some.inj found
          exact .inl member
        · exact .inr ⟨n, e', found, by rwa [show i + 1 + n = i + (n + 1) by omega]⟩

/-- The visit of the node at a path below `path`. -/
def visitOf (path : Path) (parent : Option String) (e n : Expr) (q : Path) : Visit :=
  ⟨path ++ q, n.label, n.children.map label,
    if q = [] then parent else (e.outline q.dropLast).bind Label.operator?⟩

/-- The visits are those of the nodes, each with its path. -/
theorem mem_visitsFrom {e : Expr} : ∀ {path : Path} {parent : Option String} {v : Visit},
    v ∈ visitsFrom path parent e ↔
      ∃ q n, e.nodeAt? q = some n ∧ v = visitOf path parent e n q := by
  have leaf {e : Expr} (none : e.children = []) {path : Path} {parent : Option String} {v : Visit}
      (only : visitsFrom path parent e = [⟨path, e.label, [], parent⟩]) :
      v ∈ visitsFrom path parent e ↔
        ∃ q n, e.nodeAt? q = some n ∧ v = visitOf path parent e n q := by
    rw [only, List.mem_singleton]
    constructor
    · rintro rfl
      exact ⟨[], e, rfl, by simp [visitOf, none]⟩
    · rintro ⟨_ | ⟨i, q⟩, n, found, rfl⟩
      · obtain rfl := Option.some.inj found
        simp [visitOf, none]
      · rw [nodeAt?_cons, none] at found
        cases found
  induction e using Expr.induction with
  | field id => exact leaf rfl (by rw [visitsFrom]; rfl)
  | literal value => exact leaf rfl (by rw [visitsFrom]; rfl)
  | apply operator children window ih =>
      intro path parent v
      rw [visitsFrom, List.mem_cons, mem_childVisits]
      constructor
      · rintro (rfl | ⟨i, e, found, member⟩)
        · exact ⟨[], _, rfl, by simp [visitOf, Expr.children, label]⟩
        · obtain ⟨q, n, below, rfl⟩ := (ih e (List.mem_of_getElem? found)).1 member
          refine ⟨i :: q, n, ?_, ?_⟩
          · rw [nodeAt?_cons]
            simpa [Expr.children, found] using below
          · rcases q with _ | ⟨j, q⟩
            · simp [visitOf, outline_nil, label, Label.operator?]
            · simp [visitOf, outline_cons, Expr.children, found]
      · rintro ⟨_ | ⟨i, q⟩, n, found, rfl⟩
        · obtain rfl := Option.some.inj found
          left
          simp [visitOf, Expr.children, label]
        · right
          rw [nodeAt?_cons, Option.bind_eq_some_iff] at found
          obtain ⟨e, child, below⟩ := found
          refine ⟨i, e, child, (ih e (List.mem_of_getElem? child)).2 ⟨q, n, below, ?_⟩⟩
          have child : children[i]? = some e := child
          rcases q with _ | ⟨j, q⟩
          · simp [visitOf, outline_nil, label, Label.operator?]
          · simp [visitOf, outline_cons, Expr.children, child]

theorem prefix_of_mem_visitsFrom {e : Expr} {path : Path} {parent : Option String} {v : Visit}
    (member : v ∈ visitsFrom path parent e) : path <+: v.path := by
  obtain ⟨q, n, -, rfl⟩ := mem_visitsFrom.1 member
  exact List.prefix_append path q

/-- The arguments come in order, and so do their visits. -/
theorem childVisits_ordered {path : Path} {operator : String} : ∀ {i : Nat} {es : List Expr},
    (∀ e ∈ es, ∀ n,
      ((visitsFrom (path ++ [n]) (some operator) e).map Visit.path).Pairwise (· < ·)) →
      ((childVisits path operator i es).map Visit.path).Pairwise (· < ·)
  | _, [], _ => by simp [childVisits]
  | i, e :: rest, each => by
      rw [childVisits, List.map_append, List.pairwise_append]
      refine ⟨each e List.mem_cons_self i,
        childVisits_ordered fun e' member => each e' (List.mem_cons_of_mem _ member), ?_⟩
      intro p first q later
      obtain ⟨v, mv, rfl⟩ := List.mem_map.1 first
      obtain ⟨w, mw, rfl⟩ := List.mem_map.1 later
      obtain ⟨n, e', -, mw⟩ := mem_childVisits.1 mw
      exact Path.LeftOf.lt ⟨path, i, i + 1 + n, by omega, prefix_of_mem_visitsFrom mv,
        prefix_of_mem_visitsFrom mw⟩

theorem visitsFrom_ordered (e : Expr) : ∀ (path : Path) (parent : Option String),
    ((visitsFrom path parent e).map Visit.path).Pairwise (· < ·) := by
  induction e using Expr.induction with
  | field id => simp [visitsFrom]
  | literal value => simp [visitsFrom]
  | apply operator children window ih =>
      intro path parent
      rw [visitsFrom, List.map_cons, List.pairwise_cons]
      refine ⟨List.forall_mem_map.2 fun v below => ?_,
        childVisits_ordered fun e member n => ih e member _ _⟩
      obtain ⟨n, e', -, member⟩ := mem_childVisits.1 below
      exact Path.lt_of_prefix (prefix_of_mem_visitsFrom member)

theorem children_getElem? (e : Expr) (i : Nat) :
    (e.children.map label)[i]? = e.outline [i] := by
  rw [List.getElem?_map, outline_cons]
  cases e.children[i]? <;> rfl

theorem outline_append {e n : Expr} {p : Path} (found : e.nodeAt? p = some n) (q : Path) :
    e.outline (p ++ q) = n.outline q := by
  unfold outline
  rw [nodeAt?_append, found]
  rfl

/-- The visits of a formula list its outline. -/
theorem visits_list (e : Expr) : e.outline.ListedBy e.visits where
  sees v member := by
    obtain ⟨q, n, found, rfl⟩ := mem_visitsFrom.1 member
    refine ⟨?_, ?_, ?_⟩
    · simp [visitOf, outline, found]
    · intro i
      exact (children_getElem? n i).trans (outline_append found [i]).symm
    · rfl
  covers p labelled := by
    rw [outline, Option.isSome_map] at labelled
    obtain ⟨n, found⟩ := Option.isSome_iff_exists.1 labelled
    exact ⟨visitOf [] none e n p, mem_visitsFrom.2 ⟨p, n, found, rfl⟩, rfl⟩
  once := (visitsFrom_ordered e [] none).imp ne_of_lt

end Expr

/-! ## Visits from further up -/

/-- A visit as it is from a node further up: behind the path to the formula that was visited, whose
root has the operator of that node above it. -/
def Visit.under (path : Path) (parent : Option String) (v : Visit) : Visit :=
  { v with path := path ++ v.path, parent := if v.path = [] then parent else v.parent }

namespace Expr

theorem childVisits_eq_map (path : Path) (parent : Option String) {operator : String} :
    ∀ {i : Nat} {es : List Expr}, (∀ e ∈ es, ∀ path parent,
      visitsFrom path parent e = e.visits.map (Visit.under path parent)) →
      childVisits path operator i es = (childVisits [] operator i es).map (Visit.under path parent)
  | _, [], _ => by simp [childVisits]
  | i, e :: es, each => by
      rw [childVisits, childVisits, List.map_append, each e List.mem_cons_self,
        each e List.mem_cons_self ([] ++ [i]), List.map_map,
        childVisits_eq_map path parent fun e member => each e (List.mem_cons_of_mem _ member)]
      congr 1
      refine List.map_congr_left fun v _ => ?_
      simp [Visit.under]

/-- Wherever a formula stands, its visits are those from its own root. -/
theorem visitsFrom_eq_map (e : Expr) : ∀ (path : Path) (parent : Option String),
    visitsFrom path parent e = e.visits.map (Visit.under path parent) := by
  induction e using Expr.induction with
  | field id => simp [visits, visitsFrom, Visit.under]
  | literal value => simp [visits, visitsFrom, Visit.under]
  | apply operator es window ih =>
      intro path parent
      rw [visits, visitsFrom, visitsFrom, List.map_cons, childVisits_eq_map path parent ih]
      simp [Visit.under]

section

variable {α : Type} {f : Visit → Option α} (blind : ∀ path parent v, f (v.under path parent) = f v)

include blind

theorem filterMap_childVisits {path : Path} {operator : String} : ∀ (es : List Expr) (i : Nat),
    (childVisits path operator i es).filterMap f = es.flatMap fun e => e.visits.filterMap f
  | [], _ => by simp [childVisits]
  | e :: es, i => by
      rw [childVisits, List.filterMap_append, visitsFrom_eq_map, List.filterMap_map,
        filterMap_childVisits es, List.flatMap_cons]
      congr 1
      exact List.filterMap_congr fun v _ => blind _ _ v

/-- What visits tell wherever they are made, an application tells from its arguments. -/
theorem filterMap_visits_apply {operator : String} {window : Option Float}
    (skips : ∀ v, v.label = .apply operator window → f v = none) (es : List Expr) :
    (apply operator es window).visits.filterMap f = es.flatMap fun e => e.visits.filterMap f := by
  rw [visits, visitsFrom, List.filterMap_cons_none (skips _ rfl), filterMap_childVisits blind]

end

end Expr

/-! ## Another node at a path -/

namespace Expr

theorem replaceAt_nil (e new : Expr) : e.replaceAt [] new = new := by
  cases e <;> rfl

theorem replaceAt_cons (operator : String) (children : List Expr) (window : Option Float) (i : Nat)
    (p : Path) (new : Expr) :
    (apply operator children window).replaceAt (i :: p) new =
      .apply operator (children.modify i fun child => child.replaceAt p new) window := rfl

/-- A node with the same arguments changes the label at its path, and nothing else. -/
theorem outline_replaceAt (new : Expr) : ∀ {e n : Expr} {p : Path}, e.nodeAt? p = some n →
    new.children = n.children →
      (e.replaceAt p new).outline = e.outline.put p new.label
  | e, n, [], found, same => by
      obtain rfl := Option.some.inj found
      rw [replaceAt_nil]
      funext q
      cases q with
      | nil => rw [Outline.put_self, outline_nil]
      | cons i q => rw [Outline.put_of_ne _ _ (by simp), outline_cons, outline_cons, same]
  | .field id, n, i :: p, found, _ => by cases found
  | .literal value, n, i :: p, found, _ => by cases found
  | .apply operator children window, n, i :: p, found, same => by
      obtain ⟨child, at_i, found⟩ := Option.bind_eq_some_iff.1 found
      have at_i : children[i]? = some child := at_i
      have below := outline_replaceAt new found same
      rw [replaceAt_cons]
      funext q
      cases q with
      | nil =>
          rw [Outline.put_of_ne _ _ (by simp)]
          rfl
      | cons j q =>
          rw [outline_cons]
          show ((children.modify i fun child => child.replaceAt p new)[j]?.bind
            fun child => child.outline q) = _
          rw [List.getElem?_modify]
          by_cases here : i = j
          · subst here
            simp only [at_i, if_true, Option.map_eq_map, Option.map_some, Option.bind_some, below]
            by_cases there : q = p
            · rw [there, Outline.put_self, Outline.put_self]
            · rw [Outline.put_of_ne _ _ there, Outline.put_of_ne _ _ (by simpa using there),
                outline_cons]
              show _ = children[i]?.bind fun child => child.outline q
              rw [at_i]
              rfl
          · rw [Outline.put_of_ne _ _ (by simpa using fun same => absurd same.symm here),
              outline_cons]
            simp [here, Expr.children]

end Expr

/-! ## Surveys -/

/-- Every edge leads to a fresh node, and both the encounters and the visits show the outline. -/
structure Survey.Shows (s : Survey) (t : Outline) : Prop where
  fresh : ∀ e ∈ s.encounters, ∃ v, e = .fresh v ∧ t.Sees v
  met : ∀ p, (t p).isSome → ∃ v, .fresh v ∈ s.encounters ∧ v.path = p
  listed : t.ListedBy s.visits

theorem Expr.survey_shows (e : Expr) : e.survey.Shows e.outline where
  fresh k member := by
    obtain ⟨v, visited, rfl⟩ := List.mem_map.1 member
    exact ⟨v, rfl, e.visits_list.sees v visited⟩
  met p labelled := by
    obtain ⟨v, visited, path⟩ := e.visits_list.covers p labelled
    exact ⟨v, List.mem_map_of_mem visited, path⟩
  listed := e.visits_list

end AlphaFoundry
