/-
# AlphaFoundry.Proofs.Validation.Faults -- where a formula is at fault, and what is reported of it

`Fault` says which conditions a node breaks, by its path and its label, without a word about visits.
A visit that sees an outline finds exactly the faults of its node; the domain rule looks from a node
at its arguments, so there a fault lies one step below the node whose check found it.  Of a tree the
three rules that give places therefore report every fault, each of them once and in pre-order.
-/
import Mathlib
import AlphaFoundry.Proofs.Expr.Edges
import AlphaFoundry.Proofs.Json.Numeral
import AlphaFoundry.Proofs.Validation.Conformance

namespace AlphaFoundry

set_option autoImplicit false

/-! ## Paths as texts -/

theorem toString_inj {m n : Nat} : toString m = toString n ↔ m = n := by
  refine ⟨fun same => ?_, congrArg toString⟩
  rw [← Number.natOfDigits_toString m, same, Number.natOfDigits_toString]

/-- Different paths have different texts: the text is cut at its dots. -/
theorem Path.text_injective : Function.Injective Path.text := by
  intro p q same
  have cut (p : Path) : p.text.toList.splitOn '.' =
      "root".toList :: p.map fun n => (toString n).toList := by
    rw [Path.text, String.toList_intercalate, List.map_cons, List.map_map]
    refine List.splitOn_intercalate '.' (List.forall_mem_cons.2 ⟨by decide, ?_⟩) (by simp)
    refine List.forall_mem_map.2 fun n _ dot => ?_
    have := Number.isDigit_toString dot
    revert this
    decide
  have parts := (cut p).symm.trans ((congrArg (fun s => s.toList.splitOn '.') same).trans (cut q))
  refine List.map_injective_iff.2 (fun m n same => ?_) (List.cons.inj parts).2
  exact toString_inj.1 (String.toList_inj.1 same)

/-! ## Faults -/

namespace Outline

/-- A condition that a formula breaks: the rule that asks for it, the path, and the finding.  The
argument at a path is the matter of the operator above it. -/
inductive Fault (c : Catalog) (tier : Tier) (t : Outline) : RuleId → Path → Finding → Prop
  | unknownField {p : Path} {id : String} (labelled : t p = some (.field id))
      (unknown : c.field? id = none) : Fault c tier t .shape p (.unknownField id p)
  | notFinite {p : Path} {value : Float} (labelled : t p = some (.literal value))
      (notFinite : value.isFinite = false) : Fault c tier t .shape p (.notFinite value p)
  | unknownOperator {p : Path} {operator : String} {window : Option Float}
      (labelled : t p = some (.apply operator window)) (unknown : c.operator? operator = none) :
      Fault c tier t .shape p (.unknownOperator operator p)
  | argumentCount {p : Path} {operator : String} {window : Option Float} {op : Operator} {n : Nat}
      (labelled : t p = some (.apply operator window)) (known : c.operator? operator = some op)
      (count : ∀ i, (t (p ++ [i])).isSome ↔ i < n) (wrong : n ≠ op.arity.childCount) :
      Fault c tier t .shape p (.argumentCount op n p)
  | missingWindow {p : Path} {operator : String} {op : Operator}
      (labelled : t p = some (.apply operator none)) (known : c.operator? operator = some op)
      (windowed : op.arity = .windowed) : Fault c tier t .shape p (.missingWindow op p)
  | windowOutside {p : Path} {operator : String} {w : Float} {op : Operator} {range : WindowRange}
      (labelled : t p = some (.apply operator (some w))) (known : c.operator? operator = some op)
      (ranged : op.window = some range)
      (outside : ¬∃ low high n, range.bounds? = some (low, high) ∧ Number.toInt? w = some n ∧
        low ≤ n ∧ n ≤ high) : Fault c tier t .shape p (.windowOutside op range w p)
  | strayWindow {p : Path} {operator : String} {w : Float} {op : Operator}
      (labelled : t p = some (.apply operator (some w))) (known : c.operator? operator = some op)
      (plain : op.arity ≠ .windowed) : Fault c tier t .shape p (.strayWindow op p)
  | refusedDomain {p : Path} {i : Nat} {operator d : String} {window : Option Float}
      {op : Operator} {child : Label} {accepted : List String}
      (labelled : t p = some (.apply operator window)) (known : c.operator? operator = some op)
      (below : t (p ++ [i]) = some child) (slot : op.inputs[i]? = some accepted)
      (produced : child.domain? c = some d) (refused : d ∉ accepted) :
      Fault c tier t .domain (p ++ [i]) (.refusedDomain op i d (p ++ [i]))
  | misplaced {p : Path} {operator : String} {window : Option Float} {role : Role}
      (optimize : tier = .optimize) (labelled : t p = some (.apply operator window))
      (held : c.roleOf operator = some role) (wrong : ¬t.Placed c p role) :
      Fault c tier t .placement p (.misplaced role operator p)

/-- The node whose check finds what is wrong at a path. -/
def finder : RuleId → Path → Path
  | .domain, p => p.dropLast
  | _, p => p

variable {c : Catalog} {tier : Tier} {t : Outline} {r : RuleId} {p : Path} {f : Finding}

theorem Fault.path? (fault : t.Fault c tier r p f) : f.path? = some p := by
  cases fault <;> rfl

theorem Fault.rule_eq (fault : t.Fault c tier r p f) : f.rule = r := by
  cases fault <;> rfl

/-- A fault lies at a node, and so does the check that finds it. -/
theorem Fault.labelled (fault : t.Fault c tier r p f) :
    (t p).isSome ∧ (t (finder r p)).isSome := by
  cases fault with
  | refusedDomain labelled known below => simp [finder, labelled, below]
  | _ => simp [finder, *]

/-! ## What a visit finds -/

end Outline

section Visits

variable {c : Catalog} {tier : Tier} {t : Outline} {v : Visit} {f : Finding}

theorem mem_ite_nil {α : Type} {P : Prop} [Decidable P] {x y : α} :
    x ∈ (if P then [] else [y]) ↔ ¬P ∧ x = y := by
  by_cases holds : P <;> simp [holds]

theorem fault_of_mem_windowFindings {operator : String} {op : Operator} {window : Option Float}
    {p : Path} (labelled : t p = some (.apply operator window))
    (known : c.operator? operator = some op) (member : f ∈ Rules.windowFindings op window p) :
    t.Fault c tier .shape p f := by
  have windowed := (Catalog.operator?_sound known).windowed
  unfold Rules.windowFindings at member
  split at member
  · rename_i range w ranged
    obtain ⟨outside, rfl⟩ := mem_ite_nil.1 member
    rw [WindowRange.allows_iff] at outside
    exact .windowOutside labelled known ranged outside
  · rename_i range ranged
    obtain rfl := List.mem_singleton.1 member
    exact .missingWindow labelled known (windowed.1 (by rw [ranged]; rfl))
  · rename_i w plain
    obtain rfl := List.mem_singleton.1 member
    exact .strayWindow labelled known fun own => by simp [plain, own] at windowed
  · cases member

theorem fault_of_mem_nodeFindings (sees : t.Sees v) (member : f ∈ Rules.nodeFindings c v) :
    t.Fault c tier .shape v.path f := by
  have labelled := sees.label
  unfold Rules.nodeFindings at member
  split at member
  · rename_i id label
    obtain ⟨unknown, rfl⟩ := mem_ite_nil.1 member
    exact .unknownField (label ▸ labelled) (by simpa using unknown)
  · rename_i value label
    obtain ⟨notFinite, rfl⟩ := mem_ite_nil.1 member
    exact .notFinite (label ▸ labelled) (by simpa using notFinite)
  · rename_i operator window label
    rw [label] at labelled
    split at member
    · rename_i unknown
      obtain rfl := List.mem_singleton.1 member
      exact .unknownOperator labelled unknown
    · rename_i op known
      rcases List.mem_append.1 member with member | member
      · obtain ⟨wrong, rfl⟩ := mem_ite_nil.1 member
        exact .argumentCount labelled known (sees.count_iff.2 rfl) wrong
      · exact fault_of_mem_windowFindings labelled known member

variable (tier) in
theorem mem_nodeFindings (sees : t.Sees v) :
    f ∈ Rules.nodeFindings c v ↔ t.Fault c tier .shape v.path f := by
  refine ⟨fault_of_mem_nodeFindings sees, fun fault => ?_⟩
  have label {l : Label} (labelled : t v.path = some l) : v.label = l :=
    Option.some.inj (sees.label.symm.trans labelled)
  unfold Rules.nodeFindings Rules.windowFindings
  cases fault with
  | unknownField labelled unknown => simp [label labelled, unknown]
  | notFinite labelled notFinite => simp [label labelled, notFinite]
  | unknownOperator labelled unknown => simp [label labelled, unknown]
  | argumentCount labelled known count wrong =>
      obtain rfl := sees.count_iff.1 count
      simp [label labelled, known, wrong]
  | missingWindow labelled known windowed =>
      obtain ⟨range, ranged⟩ := Option.isSome_iff_exists.1
        ((Catalog.operator?_sound known).windowed.2 windowed)
      simp [label labelled, known, ranged]
  | windowOutside labelled known ranged outside =>
      rw [← WindowRange.allows_iff] at outside
      simp [label labelled, known, ranged, outside]
  | strayWindow labelled known plain =>
      have unranged : _ = none := Option.not_isSome_iff_eq_none.1 fun ranged =>
        plain ((Catalog.operator?_sound known).windowed.1 ranged)
      simp [label labelled, known, unranged]

theorem mem_argumentFindings {op : Operator} {path : Path} {i : Nat} {child : Label} :
    f ∈ Rules.argumentFindings c op path i child ↔ ∃ accepted d, op.inputs[i]? = some accepted ∧
      child.domain? c = some d ∧ d ∉ accepted ∧ f = .refusedDomain op i d (path ++ [i]) := by
  unfold Rules.argumentFindings
  cases op.inputs[i]? with
  | none => simp
  | some accepted =>
      cases child.domain? c with
      | none => simp
      | some d => simp

variable (tier) in
theorem mem_domainFindings (sees : t.Sees v) :
    f ∈ Rules.domainFindings c v ↔ ∃ i, t.Fault c tier .domain (v.path ++ [i]) f := by
  unfold Rules.domainFindings
  constructor
  · intro member
    split at member
    · rename_i op applied
      obtain ⟨operator, applied, known⟩ := Option.bind_eq_some_iff.1 applied
      simp only [List.mem_flatMap, Prod.exists, List.mem_zipIdx_iff_getElem?, sees.children,
        mem_argumentFindings] at member
      obtain ⟨child, i, below, accepted, d, slot, produced, refused, rfl⟩ := member
      have labelled := sees.label
      cases label : v.label with
      | apply other window =>
          rw [label] at applied labelled
          obtain rfl := Option.some.inj applied
          exact ⟨i, .refusedDomain labelled known below slot produced refused⟩
      | _ => rw [label] at applied; cases applied
    · cases member
  · rintro ⟨i, fault⟩
    generalize place : v.path ++ [i] = q at fault
    cases fault with
    | refusedDomain labelled known below slot produced refused =>
        obtain ⟨rfl, same⟩ := List.append_inj' place rfl
        obtain rfl := List.singleton_inj.1 same
        have label := Option.some.inj (sees.label.symm.trans labelled)
        simp only [label, Label.operator?, Option.bind_some, known, List.mem_flatMap, Prod.exists,
          List.mem_zipIdx_iff_getElem?, sees.children, mem_argumentFindings]
        exact ⟨_, i, below, _, _, slot, produced, refused, rfl⟩

theorem mem_placementFindings (sees : t.Sees v) :
    tier = .optimize ∧ f ∈ Rules.placementFindings c v ↔ t.Fault c tier .placement v.path f := by
  unfold Rules.placementFindings
  constructor
  · rintro ⟨optimize, member⟩
    have labelled := sees.label
    split at member
    · cases member
    · rename_i operator applied
      split at member
      · cases member
      · rename_i role held
        obtain ⟨wrong, rfl⟩ := mem_ite_nil.1 member
        rw [placed_iff sees] at wrong
        cases label : v.label with
        | apply other window =>
            rw [label] at applied labelled
            obtain rfl := Option.some.inj applied
            exact .misplaced optimize labelled held wrong
        | _ => rw [label] at applied; cases applied
  · intro fault
    cases fault with
    | misplaced optimize labelled held wrong =>
        have label := Option.some.inj (sees.label.symm.trans labelled)
        rw [← placed_iff sees] at wrong
        exact ⟨optimize, by simp [label, Label.operator?, held, wrong]⟩

end Visits

/-! ## Lists of findings -/

namespace Outline

variable (c : Catalog) (tier : Tier) (t : Outline) (r : RuleId)

/-- What the check of one node finds: its faults, each once. -/
structure Finds (v : Visit) (fs : List Finding) : Prop where
  mem : ∀ f, f ∈ fs ↔ ∃ p, t.Fault c tier r p f ∧ finder r p = v.path
  once : fs.Nodup

/-- All faults, each once, in pre-order of the nodes whose checks find them. -/
structure Lists (fs : List Finding) : Prop where
  mem : ∀ f, f ∈ fs ↔ ∃ p, t.Fault c tier r p f
  once : fs.Nodup
  ordered : fs.Pairwise fun f g => ∀ p q, f.path? = some p → g.path? = some q →
    finder r p ≤ finder r q

variable {c tier t r}

/-- Checked node by node, a formula is found to have the faults that it has. -/
theorem Finds.lists {vs : List Visit} {check : Visit → List Finding} (listed : t.ListedBy vs)
    (ordered : (vs.map Visit.path).Pairwise (· < ·))
    (finds : ∀ v, t.Sees v → t.Finds c tier r v (check v)) :
    t.Lists c tier r (vs.flatMap check) := by
  have finds (v : Visit) (visited : v ∈ vs) := finds v (listed.sees v visited)
  have found {v : Visit} (visited : v ∈ vs) {f : Finding} {p : Path} (member : f ∈ check v)
      (place : f.path? = some p) : finder r p = v.path := by
    obtain ⟨q, fault, here⟩ := ((finds v visited).mem f).1 member
    obtain rfl := Option.some.inj (place.symm.trans fault.path?)
    exact here
  have apart : vs.Pairwise fun v w => v ∈ vs ∧ w ∈ vs ∧ v.path < w.path :=
    (List.pairwise_map.1 ordered).imp_of_mem fun left right less => ⟨left, right, less⟩
  constructor
  case mem =>
    intro f
    rw [List.mem_flatMap]
    constructor
    · rintro ⟨v, visited, member⟩
      obtain ⟨p, fault, -⟩ := ((finds v visited).mem f).1 member
      exact ⟨p, fault⟩
    · rintro ⟨p, fault⟩
      obtain ⟨v, visited, here⟩ := listed.covers _ fault.labelled.2
      exact ⟨v, visited, ((finds v visited).mem f).2 ⟨p, fault, here.symm⟩⟩
  case once =>
    rw [List.nodup_flatMap]
    refine ⟨fun v visited => (finds v visited).once, apart.imp fun ⟨left, right, less⟩ => ?_⟩
    intro f first second
    obtain ⟨p, fault, here⟩ := ((finds _ left).mem f).1 first
    exact less.ne (here.symm.trans (found right second fault.path?))
  case ordered =>
    rw [List.pairwise_flatMap]
    refine ⟨fun v visited => ?_, apart.imp fun ⟨left, right, less⟩ f first g second p q => ?_⟩
    · refine List.pairwise_of_forall_mem_list fun f first g second p q placed placed' => ?_
      rw [found visited first placed, found visited second placed']
    · intro placed placed'
      rw [found left first placed, found right second placed']
      exact less.le

end Outline

section Checks

variable {c : Catalog} {tier : Tier} {cap : Float} {t : Outline} {v : Visit}

theorem finds_nodeFindings (sees : t.Sees v) :
    t.Finds c tier .shape v (Rules.nodeFindings c v) where
  mem f := by
    rw [mem_nodeFindings tier sees]
    exact ⟨fun fault => ⟨_, fault, rfl⟩, by rintro ⟨p, fault, rfl⟩; exact fault⟩
  once := by
    unfold Rules.nodeFindings Rules.windowFindings
    repeat' split
    all_goals simp

theorem finds_domainFindings (sees : t.Sees v) :
    t.Finds c tier .domain v (Rules.domainFindings c v) where
  mem f := by
    rw [mem_domainFindings tier sees]
    constructor
    · rintro ⟨i, fault⟩
      exact ⟨_, fault, List.dropLast_concat⟩
    · rintro ⟨p, fault, here⟩
      cases fault with
      | @refusedDomain p i =>
          obtain rfl : p = v.path := List.dropLast_concat.symm.trans here
          exact ⟨i, by constructor <;> assumption⟩
  once := by
    unfold Rules.domainFindings
    split
    · rw [List.nodup_flatMap]
      refine ⟨fun edge _ => ?_, (zipIdx_ordered _).imp fun {x y} less f left right => ?_⟩
      · unfold Rules.argumentFindings
        repeat' split
        all_goals simp
      · obtain ⟨_, _, -, -, -, rfl⟩ := mem_argumentFindings.1 left
        obtain ⟨_, _, -, -, -, same⟩ := mem_argumentFindings.1 right
        exact less.ne (Finding.refusedDomain.inj same).2.1
    · exact List.nodup_nil

theorem finds_placementFindings (sees : t.Sees v) :
    t.Finds c tier .placement v (if tier = .optimize then Rules.placementFindings c v else []) where
  mem f := by
    rw [List.mem_ite_nil_right, mem_placementFindings sees]
    exact ⟨fun fault => ⟨_, fault, rfl⟩, by rintro ⟨p, fault, rfl⟩; exact fault⟩
  once := by
    unfold Rules.placementFindings
    repeat' split
    all_goals simp

end Checks

/-! ## Reports -/

/-- A survey that shows an outline, with both of its traversals in pre-order. -/
structure Survey.InOrder (s : Survey) (t : Outline) : Prop extends s.Shows t where
  followed : (s.encounters.map Encounter.path).Pairwise (· < ·)
  walked : (s.visits.map Visit.path).Pairwise (· < ·)

theorem Graph.survey_inOrder {g : Graph} (tree : g.OnePath) : g.survey.InOrder g.outline where
  toShows := survey_shows tree
  followed := encounters_ordered
  walked := walk_ordered

theorem Expr.survey_inOrder (e : Expr) : e.survey.InOrder e.outline where
  toShows := e.survey_shows
  followed := by
    show ((e.visits.map Encounter.fresh).map Encounter.path).Pairwise (· < ·)
    rw [List.map_map]
    exact e.visitsFrom_ordered [] none
  walked := e.visitsFrom_ordered [] none

namespace Survey.InOrder

variable {c : Catalog} {tier : Tier} {cap : Float} {s : Survey} {t : Outline}
  (inOrder : s.InOrder t)

include inOrder

/-- The encounters are fresh, and their visits list the outline. -/
theorem encounters_list : ∃ vs, s.encounters = vs.map .fresh ∧ t.ListedBy vs ∧
    (vs.map Visit.path).Pairwise (· < ·) := by
  have fresh : ∀ e ∈ s.encounters, e ∈ Set.range Encounter.fresh := fun e met => by
    obtain ⟨v, same, -⟩ := inOrder.fresh e met
    exact ⟨v, same.symm⟩
  have all : s.encounters ∈ Set.range (List.map Encounter.fresh) := by
    rw [Set.range_list_map]
    exact fresh
  obtain ⟨vs, same⟩ := all
  have ordered : (vs.map Visit.path).Pairwise (· < ·) := by
    have := inOrder.followed
    rwa [← same, List.map_map] at this
  refine ⟨vs, same.symm, ⟨fun v member => ?_, fun p labelled => ?_, ordered.imp ne_of_lt⟩, ordered⟩
  · obtain ⟨w, equal, sees⟩ := inOrder.fresh (.fresh v) (same ▸ List.mem_map_of_mem member)
    exact Encounter.fresh.inj equal ▸ sees
  · obtain ⟨v, met, place⟩ := inOrder.met p labelled
    rw [← same] at met
    obtain ⟨w, member, equal⟩ := List.mem_map.1 met
    exact ⟨w, member, Encounter.fresh.inj equal ▸ place⟩

theorem lists {r : RuleId} (placed : r = .shape ∨ r = .domain ∨ r = .placement) :
    t.Lists c tier r (RuleId.check c tier cap s r) := by
  rcases placed with rfl | rfl | rfl
  · obtain ⟨vs, same, listed, ordered⟩ := inOrder.encounters_list
    show t.Lists c tier .shape (s.encounters.flatMap (Rules.encounterFindings c))
    rw [same, List.flatMap_map]
    exact Outline.Finds.lists listed ordered fun v => finds_nodeFindings
  · exact Outline.Finds.lists inOrder.listed inOrder.walked fun v => finds_domainFindings
  · have all : RuleId.check c tier cap s .placement = s.visits.flatMap fun v =>
        if tier = .optimize then Rules.placementFindings c v else [] := by
      by_cases optimize : tier = .optimize <;> simp [RuleId.check, optimize]
    rw [all]
    exact Outline.Finds.lists inOrder.listed inOrder.walked fun v => finds_placementFindings

end Survey.InOrder

namespace Outline

variable (c : Catalog) (tier : Tier) (t : Outline) (r : RuleId)

/-- Violations that report the faults that a rule asks for, and nothing else: each fault once, in
pre-order of the nodes whose checks find them, which is the lexicographic order of their paths.  So
a path is reported just if there is a fault at it, and as often as there are faults at it. -/
structure Pinpoints (vs : List Violation) : Prop where
  listed : ∃ faults : List (Path × Finding), faults.Nodup ∧
    (∀ p f, (p, f) ∈ faults ↔ t.Fault c tier r p f) ∧
    (faults.Pairwise fun x y => finder r x.1 ≤ finder r y.1) ∧
    vs = faults.map fun x => ⟨r, x.2.reason, x.2.severity, some x.1.text⟩
  reported : ∀ p : Path, (∃ v ∈ vs, v.path = some p.text) ↔ ∃ f, t.Fault c tier r p f
  counted : ∀ p : Path,
    vs.countP (fun v => v.path = some p.text) = {f | t.Fault c tier r p f}.ncard

variable {c tier t r}

theorem Lists.pinpoints {fs : List Finding} (all : t.Lists c tier r fs) :
    t.Pinpoints c tier r (fs.map Finding.violation) := by
  have fault {f : Finding} (member : f ∈ fs) : ∃ p, f.path? = some p ∧ t.Fault c tier r p f := by
    obtain ⟨p, fault⟩ := (all.mem f).1 member
    exact ⟨p, fault.path?, fault⟩
  have at_path {p : Path} {f : Finding} :
      f ∈ fs ∧ f.violation.path = some p.text ↔ t.Fault c tier r p f := by
    constructor
    · rintro ⟨member, text⟩
      obtain ⟨q, place, fault⟩ := fault member
      rw [Finding.violation, place, Option.map_some] at text
      exact Path.text_injective (Option.some.inj text) ▸ fault
    · intro fault
      refine ⟨(all.mem f).2 ⟨p, fault⟩, ?_⟩
      rw [Finding.violation, fault.path?, Option.map_some]
  constructor
  case listed =>
    refine ⟨fs.map fun f => (f.path?.getD [], f), ?_, fun p f => ?_, ?_, ?_⟩
    · exact all.once.map fun f g same => (Prod.mk.inj same).2
    · rw [List.mem_map]
      constructor
      · rintro ⟨f, member, same⟩
        obtain ⟨q, place, fault⟩ := fault member
        obtain ⟨rfl, rfl⟩ := Prod.mk.inj same
        rwa [place]
      · intro fault
        exact ⟨f, (all.mem f).2 ⟨p, fault⟩, by rw [fault.path?]; rfl⟩
    · rw [List.pairwise_map]
      refine all.ordered.imp_of_mem fun {f g} first second less => ?_
      obtain ⟨p, place, -⟩ := fault first
      obtain ⟨q, place', -⟩ := fault second
      simpa [place, place'] using less p q place place'
    · rw [List.map_map]
      refine List.map_congr_left fun f member => ?_
      obtain ⟨p, place, fault⟩ := fault member
      show f.violation = ⟨r, f.reason, f.severity, some (f.path?.getD []).text⟩
      rw [Finding.violation, fault.rule_eq, place]
      rfl
  case reported =>
    intro p
    constructor
    · rintro ⟨v, member, text⟩
      obtain ⟨f, found, rfl⟩ := List.mem_map.1 member
      exact ⟨f, at_path.1 ⟨found, text⟩⟩
    · rintro ⟨f, fault⟩
      obtain ⟨member, text⟩ := at_path.2 fault
      exact ⟨_, List.mem_map_of_mem member, text⟩
  case counted =>
    classical
    intro p
    have same : {f | t.Fault c tier r p f} =
        ((fs.filter fun f => f.violation.path = some p.text).toFinset : Set Finding) := by
      ext f
      simp [← at_path]
    rw [same, Set.ncard_coe_finset, List.toFinset_card_of_nodup (all.once.filter _),
      List.countP_map, List.countP_eq_length_filter]
    rfl

end Outline

namespace Validator

/-- Of a tree, each rule that gives places reports just the faults of the nodes. -/
theorem faults_pinpointed (c : Catalog) (tier : Tier) (cap : Float) {r : RuleId}
    (placed : r = .shape ∨ r = .domain ∨ r = .placement) :
    (∀ g : Graph, g.OnePath → g.outline.Pinpoints c tier r
      (({ catalog := c, cap, rules := [r] } : Validator).validateGraph g tier).violations) ∧
    ∀ e : Expr, e.outline.Pinpoints c tier r
      (({ catalog := c, cap, rules := [r] } : Validator).validateTree e tier).violations := by
  have alone (s : Survey) :
      (({ catalog := c, cap, rules := [r] } : Validator).report tier s).violations =
        (RuleId.check c tier cap s r).map Finding.violation := by
    simp [report, findings]
  refine ⟨fun g tree => ?_, fun e => ?_⟩
  · rw [validateGraph, alone]
    exact ((Graph.survey_inOrder tree).lists placed).pinpoints
  · rw [validateTree, alone]
    exact (e.survey_inOrder.lists placed).pinpoints

/-- The rank of two arguments, of which the catalog knows one. -/
def rankOfTwo : Graph where
  size := 3
  node := ![⟨.apply "rank" none, [1, 2]⟩, ⟨.field "close", []⟩, ⟨.field "ghost", []⟩]
  root := 0

theorem faults_pinpointed_rankOfTwo :
    (RuleId.shape = .shape ∨ RuleId.shape = .domain ∨ RuleId.shape = .placement) ∧
      rankOfTwo.OnePath ∧
      rankOfTwo.outline.Pinpoints Catalog.small .basic .shape
        (({ catalog := Catalog.small, cap := 3, rules := [.shape] } : Validator).validateGraph
          rankOfTwo .basic).violations := by
  have tree : rankOfTwo.OnePath := by
    have fresh : rankOfTwo.encounters.all Encounter.isFresh = true := by decide +kernel
    refine Graph.encounters_fresh_iff.1 fun e met => ?_
    have := List.all_eq_true.1 fresh e met
    cases e with
    | fresh v => exact ⟨v, rfl⟩
    | _ => cases this
  exact ⟨.inl rfl, tree, (faults_pinpointed Catalog.small .basic 3 (.inl rfl)).1 rankOfTwo tree⟩

end Validator

end AlphaFoundry
