/-
# AlphaFoundry.Proofs.Validation.Conformance -- what the rules decide

`Outline.Conforms` says what an acceptable formula is, without a word about visits, walks or
findings.  Each rule is then shown to find nothing exactly if its part of this holds of the outline
that its visits list.  The rules are therefore exact on whatever lists an outline: on the visits of
a formula, and on the walk of a graph that is a tree.
-/
import Mathlib
import AlphaFoundry.Proofs.Catalog.Sound
import AlphaFoundry.Proofs.Expr.Measure
import AlphaFoundry.Proofs.Number.Double
import AlphaFoundry.Validation.Validator

namespace AlphaFoundry

set_option autoImplicit false

/-! ## Conditions on formulas -/

/-- A window on a windowed operator and on no other, and a whole number in the range. -/
def Operator.WindowFits (op : Operator) (window : Option Float) : Prop :=
  (window.isSome ↔ op.arity = .windowed) ∧
    ∀ w, window = some w → ∃ range low high n, op.window = some range ∧
      range.bounds? = some (low, high) ∧ Number.toInt? w = some n ∧ low ≤ n ∧ n ≤ high

theorem Operator.windowFits_none {op : Operator} (plain : op.arity ≠ .windowed) :
    op.WindowFits none :=
  ⟨iff_of_false (by simp) plain, nofun⟩

namespace Outline

variable (c : Catalog) (tier : Tier) (cap : Float) (t : Outline)

/-- The node at a path is in order by itself. -/
def NodeFits (p : Path) : Label → Prop
  | .field id => ∃ f, c.field? id = some f
  | .literal value => value.isFinite = true
  | .apply operator window => ∃ op, c.operator? operator = some op ∧
      (∀ i, (t (p ++ [i])).isSome ↔ i < op.arity.childCount) ∧ op.WindowFits window

/-- Every argument with a slot and a known domain is accepted by its slot. -/
def ArgumentsFit (p : Path) (l : Label) : Prop :=
  ∀ op i child accepted d, l.operator?.bind c.operator? = some op → t (p ++ [i]) = some child →
    op.inputs[i]? = some accepted → child.domain? c = some d → d ∈ accepted

/-- A wrapping operator stands where it may: at the root, or, to neutralize, directly below a
normalizing root. -/
def Placed (p : Path) (role : Role) : Prop :=
  p = [] ∨ role = .neutralize ∧ ∃ i root window,
    p = [i] ∧ t [] = some (.apply root window) ∧ c.roleOf root = some .normalize

/-- No field is referenced more often than the cap. -/
def Capped : Prop :=
  ∀ id bound, Number.value? cap = some bound →
    (({p | t p = some (.field id)}.ncard : ℝ) : EReal) ≤ bound

/-- What is asked of a formula apart from how often it references fields. -/
structure WellBuilt : Prop where
  nodes : ∀ p l, t p = some l → t.NodeFits c p l
  domains : ∀ p operator window op i child, t p = some (.apply operator window) →
    c.operator? operator = some op → t (p ++ [i]) = some child →
      ∃ d, child.domain? c = some d ∧ d ∈ op.slot i
  depth : ∀ p, (t p).isSome → p.length + 1 ≤ 8
  size : {p | (t p).isSome}.encard ≤ 48
  placed : tier = .optimize → ∀ p operator window role, t p = some (.apply operator window) →
    c.roleOf operator = some role → t.Placed c p role

/-- The conditions on an acceptable formula. -/
structure Conforms : Prop extends t.WellBuilt c tier where
  used : ∃ p id, t p = some (.field id)
  capped : t.Capped cap

/-! ## Lists of visits -/

namespace ListedBy

variable {c : Catalog} {tier : Tier} {cap : Float} {t : Outline} {vs : List Visit}

theorem forall_iff (listed : t.ListedBy vs) {P : Path → Label → Prop} :
    (∀ v ∈ vs, P v.path v.label) ↔ ∀ p l, t p = some l → P p l := by
  constructor
  · intro each p l labelled
    obtain ⟨v, member, rfl⟩ := listed.covers p (by rw [labelled]; rfl)
    obtain rfl := Option.some.inj ((listed.sees v member).label.symm.trans labelled)
    exact each v member
  · intro each v member
    exact each _ _ (listed.sees v member).label

end ListedBy

end Outline

/-! ## Shape -/

section Shape

variable {c : Catalog} {t : Outline} {v : Visit}

theorem WindowRange.allows_iff {range : WindowRange} {w : Float} :
    range.allows w = true ↔ ∃ low high n, range.bounds? = some (low, high) ∧
      Number.toInt? w = some n ∧ low ≤ n ∧ n ≤ high := by
  unfold WindowRange.allows
  cases Number.toInt? w with
  | none => simp
  | some n =>
      cases range.bounds? with
      | none => simp
      | some ends => obtain ⟨low, high⟩ := ends; simp

theorem windowFindings_eq_nil {op : Operator} {window : Option Float} {path : Path}
    {domains : List String} (sound : op.Sound domains) :
    Rules.windowFindings op window path = [] ↔ op.WindowFits window := by
  unfold Rules.windowFindings Operator.WindowFits
  have windowed := sound.windowed
  cases range : op.window with
  | none =>
      rw [range] at windowed
      have other : ¬op.arity = .windowed := by rw [← windowed]; exact Bool.false_ne_true
      cases window <;> simp [other]
  | some range =>
      rw [range] at windowed
      have own : op.arity = .windowed := windowed.1 rfl
      cases window with
      | none => simp [own]
      | some w =>
          simp only [ite_nil_eq_nil, WindowRange.allows_iff, own]
          simp

/-- A node has as many arguments as there are labels below it. -/
theorem Outline.Sees.count_iff (sees : t.Sees v) {n : Nat} :
    (∀ i, (t (v.path ++ [i])).isSome ↔ i < n) ↔ v.children.length = n := by
  have inside (i : Nat) : (t (v.path ++ [i])).isSome ↔ i < v.children.length := by
    rw [← sees.children i]
    simp
  simp only [inside]
  constructor
  · intro same
    have := same v.children.length
    have := same n
    omega
  · rintro rfl i
    rfl

theorem nodeFindings_eq_nil (sees : t.Sees v) :
    Rules.nodeFindings c v = [] ↔ t.NodeFits c v.path v.label := by
  unfold Rules.nodeFindings
  cases label : v.label with
  | field id => simp only [ite_nil_eq_nil, Outline.NodeFits, Option.isSome_iff_exists]
  | literal value => simp only [ite_nil_eq_nil, Outline.NodeFits]
  | apply operator window =>
      simp only [Outline.NodeFits]
      cases found : c.operator? operator with
      | none => simp
      | some op =>
          rw [List.append_eq_nil_iff, ite_nil_eq_nil,
            windowFindings_eq_nil (Catalog.operator?_sound found), ← sees.count_iff]
          simp

end Shape

/-! ## Domains and placement -/

section Domains

variable {c : Catalog} {t : Outline} {v : Visit}

theorem argumentFindings_eq_nil {op : Operator} {path : Path} {i : Nat} {child : Label} :
    Rules.argumentFindings c op path i child = [] ↔
      ∀ accepted d, op.inputs[i]? = some accepted → child.domain? c = some d → d ∈ accepted := by
  unfold Rules.argumentFindings
  cases op.inputs[i]? with
  | none => simp
  | some accepted =>
      cases child.domain? c with
      | none => simp
      | some d => simp

theorem domainFindings_eq_nil (sees : t.Sees v) :
    Rules.domainFindings c v = [] ↔ t.ArgumentsFit c v.path v.label := by
  unfold Rules.domainFindings Outline.ArgumentsFit
  cases v.label.operator?.bind c.operator? with
  | none => simp
  | some op =>
      simp only [List.flatMap_eq_nil_iff, argumentFindings_eq_nil, Prod.forall,
        List.mem_zipIdx_iff_getElem?, sees.children, Option.some.injEq]
      constructor
      · rintro each _ i child accepted d rfl below slot domain
        exact each child i below accepted d slot domain
      · intro each child i below accepted d slot domain
        exact each op i child accepted d rfl below slot domain

theorem domainFindings_apply {operator : String} {op : Operator}
    (known : c.operator? operator = some op) (path : Path) (window : Option Float)
    (children : List Label) (parent : Option String) :
    Rules.domainFindings c ⟨path, .apply operator window, children, parent⟩
      = children.zipIdx.flatMap fun u => Rules.argumentFindings c op path u.2 u.1 := by
  unfold Rules.domainFindings
  simp only [Label.operator?, Option.bind_some, known]

theorem placed_iff (sees : t.Sees v) {role : Role} :
    Rules.placed c v role = true ↔ t.Placed c v.path role := by
  have parent := sees.parent
  unfold Rules.placed Outline.Placed
  match path : v.path with
  | [] => simp
  | [i] =>
      rw [path, Outline.above, if_neg (by simp)] at parent
      simp only [parent, List.dropLast_singleton, Bool.and_eq_true, decide_eq_true_eq]
      have operators (l : Label) (operator : String) :
          l.operator? = some operator ↔ ∃ window, l = .apply operator window := by
        cases l <;> simp [Label.operator?]
      simp only [Option.bind_eq_some_iff, operators]
      constructor
      · rintro ⟨rfl, root, ⟨l, top, window, rfl⟩, normalize⟩
        exact .inr ⟨rfl, i, root, window, rfl, top, normalize⟩
      · rintro (none | ⟨rfl, -, root, window, -, top, normalize⟩)
        · cases none
        · exact ⟨rfl, root, ⟨_, top, window, rfl⟩, normalize⟩
  | i :: j :: p => simp

theorem placementFindings_eq_nil (sees : t.Sees v) :
    Rules.placementFindings c v = [] ↔
      ∀ operator role, v.label.operator? = some operator → c.roleOf operator = some role →
        t.Placed c v.path role := by
  unfold Rules.placementFindings
  cases v.label.operator? with
  | none => exact iff_of_true rfl (by rintro _ _ ⟨⟩)
  | some operator =>
      simp only
      cases found : c.roleOf operator with
      | none =>
          refine iff_of_true rfl ?_
          rintro _ role ⟨⟩ held
          rw [found] at held
          cases held
      | some role =>
          simp only [ite_nil_eq_nil, placed_iff sees]
          constructor
          · rintro placed _ _ ⟨⟩ held
            obtain rfl := Option.some.inj (found.symm.trans held)
            exact placed
          · intro placed
            exact placed operator role rfl found

end Domains

/-! ## Limits and field usage -/

namespace Outline.ListedBy

variable {c : Catalog} {tier : Tier} {cap : Float} {t : Outline} {vs : List Visit}

/-- As many paths have a label of a kind as there are visits of that kind. -/
theorem encard_eq (listed : t.ListedBy vs) (kind : Label → Bool) :
    {p | ∃ l, t p = some l ∧ kind l = true}.encard = vs.countP fun v => kind v.label := by
  have paths : {p | ∃ l, t p = some l ∧ kind l = true}
      = ((vs.filter fun v => kind v.label).map Visit.path).toFinset := by
    ext p
    simp only [Set.mem_ofPred_eq, List.coe_toFinset, List.mem_map, List.mem_filter]
    constructor
    · rintro ⟨l, labelled, holds⟩
      obtain ⟨v, member, rfl⟩ := listed.covers p (by rw [labelled]; rfl)
      obtain rfl := Option.some.inj ((listed.sees v member).label.symm.trans labelled)
      exact ⟨v, ⟨member, holds⟩, rfl⟩
    · rintro ⟨v, ⟨member, holds⟩, rfl⟩
      exact ⟨v.label, (listed.sees v member).label, holds⟩
  rw [paths, Set.encard_coe_eq_coe_finsetCard, List.toFinset_card_of_nodup, List.length_map,
    List.countP_eq_length_filter]
  exact (List.filter_sublist.map _).nodup listed.once

theorem limitFindings_eq_nil (listed : t.ListedBy vs) :
    Rules.limitFindings vs = [] ↔
      (∀ p, (t p).isSome → p.length + 1 ≤ 8) ∧ {p | (t p).isSome}.encard ≤ 48 := by
  have size : {p | (t p).isSome}.encard = vs.length := by
    have := listed.encard_eq fun _ => true
    simpa [Option.isSome_iff_exists] using this
  have depth : Visit.maxDepth vs ≤ 8 ↔ ∀ p, (t p).isSome → p.length + 1 ≤ 8 := by
    rw [maxDepth_le]
    have := listed.forall_iff (P := fun p _ => p.length + 1 ≤ 8)
    simpa [Option.isSome_iff_exists, Visit.depth] using this
  unfold Rules.limitFindings
  rw [List.append_eq_nil_iff, ite_singleton_eq_nil, ite_singleton_eq_nil, size, ← depth]
  simp only [gt_iff_lt, not_lt, maxDepth, maxNodes]
  norm_cast

end Outline.ListedBy

/-- The label is a reference to a field. -/
def Label.refersTo (id : String) : Label → Bool
  | .field other => other == id
  | _ => false

theorem Label.refersTo_iff {id : String} {l : Label} : l.refersTo id = true ↔ l = .field id := by
  cases l <;> simp [refersTo]

theorem count_fieldIds (vs : List Visit) (id : String) :
    (Visit.fieldIds vs).count id = vs.countP fun v => v.label.refersTo id := by
  induction vs with
  | nil => rfl
  | cons v vs ih =>
      unfold Visit.fieldIds at ih ⊢
      cases label : v.label with
      | field other =>
          rw [List.filterMap_cons_some (by rw [label]), List.count_cons, List.countP_cons, ih, label]
          rfl
      | literal value =>
          rw [List.filterMap_cons_none (by rw [label]), List.countP_cons, ih, label]
          rfl
      | apply operator window =>
          rw [List.filterMap_cons_none (by rw [label]), List.countP_cons, ih, label]
          rfl

namespace Outline.ListedBy

variable {c : Catalog} {tier : Tier} {cap : Float} {t : Outline} {vs : List Visit}

theorem count_fieldIds (listed : t.ListedBy vs) (id : String) :
    (Visit.fieldIds vs).count id = {p | t p = some (.field id)}.ncard := by
  have counted := listed.encard_eq (Label.refersTo id)
  simp only [Label.refersTo_iff, exists_eq_right] at counted
  rw [AlphaFoundry.count_fieldIds, Set.ncard, counted, ENat.toNat_natCast]

theorem mem_fieldIds (listed : t.ListedBy vs) {id : String} :
    id ∈ Visit.fieldIds vs ↔ ∃ p, t p = some (.field id) := by
  unfold Visit.fieldIds
  rw [List.mem_filterMap]
  constructor
  · rintro ⟨v, member, reads⟩
    refine ⟨v.path, ?_⟩
    rw [(listed.sees v member).label]
    cases label : v.label with
    | field other => rw [label] at reads; simpa using reads
    | literal value => rw [label] at reads; cases reads
    | apply operator window => rw [label] at reads; cases reads
  · rintro ⟨p, labelled⟩
    obtain ⟨v, member, rfl⟩ := listed.covers p (by rw [labelled]; rfl)
    have label := Option.some.inj ((listed.sees v member).label.symm.trans labelled)
    exact ⟨v, member, by rw [label]⟩

theorem usageFindings_eq_nil (listed : t.ListedBy vs) :
    Rules.usageFindings cap vs = [] ↔ (∃ p id, t p = some (.field id)) ∧ t.Capped cap := by
  have some_field : (∃ p id, t p = some (.field id)) ↔ ∃ id, id ∈ Visit.fieldIds vs := by
    simp only [listed.mem_fieldIds]
    exact exists_comm
  have under (id : String) : Number.countAbove ((Visit.fieldIds vs).count id) cap = true ↔
      ¬∀ bound, Number.value? cap = some bound →
        (({p | t p = some (.field id)}.ncard : ℝ) : EReal) ≤ bound := by
    rw [Number.countAbove_iff, listed.count_fieldIds]
    push Not
    exact Iff.rfl
  unfold Rules.usageFindings Visit.fieldUsage
  rw [List.append_eq_nil_iff, ite_singleton_eq_nil, List.map_eq_nil_iff, List.filter_eq_nil_iff,
    List.isEmpty_iff, List.map_eq_nil_iff, List.eq_nil_iff_forall_not_mem, List.forall_mem_map,
    some_field]
  simp only [List.mem_eraseDups, under, not_not]
  rw [not_forall]
  simp only [not_not]
  refine and_congr_right ?_
  rintro ⟨used, occurs⟩
  refine ⟨?_, fun capped id _ => capped id⟩
  -- A field that does not occur is referenced less often than one that does.
  intro each id bound value
  by_cases member : id ∈ Visit.fieldIds vs
  · exact each id member bound value
  · have none : {p | t p = some (.field id)}.ncard = 0 := by
      rw [← listed.count_fieldIds, List.count_eq_zero]
      exact member
    have least := each used occurs bound value
    rw [none]
    exact le_trans (by exact_mod_cast Nat.zero_le _) least

/-- Of a formula with a field, only repeated fields are reported. -/
theorem usageFindings_of_used (listed : t.ListedBy vs) (used : ∃ p id, t p = some (.field id)) :
    Rules.usageFindings cap vs = ((Visit.fieldUsage vs).filter
      fun u => Number.countAbove u.2 cap).map fun u => .repeatedField u.1 u.2 cap := by
  obtain ⟨p, id, labelled⟩ := used
  have member : id ∈ (Visit.fieldIds vs).eraseDups :=
    List.mem_eraseDups.2 (listed.mem_fieldIds.2 ⟨p, labelled⟩)
  have some_field : ¬(Visit.fieldUsage vs).isEmpty = true := by
    rw [Visit.fieldUsage, List.isEmpty_iff, List.map_eq_nil_iff]
    exact List.ne_nil_of_mem member
  unfold Rules.usageFindings
  dsimp only
  rw [if_neg some_field, List.nil_append]

end Outline.ListedBy

theorem Rules.rule_of_mem_usageFindings {cap : Float} {vs : List Visit} {f : Finding}
    (member : f ∈ usageFindings cap vs) : f.rule = .fieldUsage := by
  unfold usageFindings at member
  dsimp only at member
  rcases List.mem_append.1 member with unused | repeated
  · split at unused
    · obtain rfl := List.mem_singleton.1 unused
      rfl
    · cases unused
  · obtain ⟨u, -, rfl⟩ := List.mem_map.1 repeated
    rfl

/-! ## All rules -/

/-- Without further rules, a report tells the findings of the built-in ones. -/
theorem Validator.report_builtin (c : Catalog) (tier : Tier) (cap : Float) (s : Survey) :
    ({ catalog := c, cap } : Validator).report tier s =
      ⟨(({ catalog := c, cap } : Validator).findings tier s).isEmpty,
        (({ catalog := c, cap } : Validator).findings tier s).map Finding.violation⟩ := by
  unfold report
  simp only [List.flatMap_nil, List.append_nil, List.isEmpty_map]

namespace Outline

variable {c : Catalog} {t : Outline}

theorem NodeFits.domain {p : Path} {l : Label} (fits : t.NodeFits c p l) :
    ∃ d, l.domain? c = some d := by
  cases l with
  | field id =>
      obtain ⟨f, found⟩ := fits
      exact ⟨f.domain, by simp [Label.domain?, found]⟩
  | literal value => exact ⟨literalDomain, rfl⟩
  | apply operator window =>
      obtain ⟨op, found, -⟩ := fits
      exact ⟨op.output, by simp [Label.domain?, found]⟩

/-- Where the nodes are in order, every argument has a slot and a domain. -/
theorem argumentsFit_iff (nodes : ∀ p l, t p = some l → t.NodeFits c p l) :
    (∀ p l, t p = some l → t.ArgumentsFit c p l) ↔
      ∀ p operator window op i child, t p = some (.apply operator window) →
        c.operator? operator = some op → t (p ++ [i]) = some child →
          ∃ d, child.domain? c = some d ∧ d ∈ op.slot i := by
  constructor
  · intro each p operator window op i child labelled found below
    obtain ⟨d, domain⟩ := (nodes _ _ below).domain
    obtain ⟨op', found', count, -⟩ := nodes p _ labelled
    obtain rfl := Option.some.inj (found.symm.trans found')
    have inside : i < op.inputs.length := by
      rw [(Catalog.operator?_sound found).slots, ← count i, below]
      rfl
    have slot : op.inputs[i]? = some (op.slot i) := by simp [Operator.slot, inside]
    exact ⟨d, domain, each p _ labelled op i child _ d found below slot domain⟩
  · intro each p l labelled op i child accepted d applied below slot domain
    cases l with
    | field id => cases applied
    | literal value => cases applied
    | apply operator window =>
        obtain ⟨d', domain', member⟩ := each p operator window op i child labelled applied below
        obtain rfl := Option.some.inj (domain.symm.trans domain')
        simpa [Operator.slot, slot] using member

theorem placed_apply_iff :
    (∀ p l, t p = some l → ∀ operator role, l.operator? = some operator →
      c.roleOf operator = some role → t.Placed c p role) ↔
      ∀ p operator window role, t p = some (.apply operator window) →
        c.roleOf operator = some role → t.Placed c p role := by
  constructor
  · intro each p operator window role labelled held
    exact each p _ labelled operator role rfl held
  · rintro each p l labelled operator role applied held
    cases l with
    | field id => cases applied
    | literal value => cases applied
    | apply other window =>
        obtain rfl := Option.some.inj applied
        exact each p _ window role labelled held

end Outline

namespace Survey.Shows

variable {c : Catalog} {tier : Tier} {cap : Float} {s : Survey} {t : Outline} (shows : s.Shows t)

include shows

theorem shape_iff :
    RuleId.check c tier cap s .shape = [] ↔ ∀ p l, t p = some l → t.NodeFits c p l := by
  unfold RuleId.check
  rw [List.flatMap_eq_nil_iff]
  constructor
  · intro each p l labelled
    obtain ⟨v, member, rfl⟩ := shows.met p (by rw [labelled]; rfl)
    obtain ⟨w, equal, sees⟩ := shows.fresh _ member
    obtain rfl := Encounter.fresh.inj equal
    obtain rfl := Option.some.inj (sees.label.symm.trans labelled)
    exact (nodeFindings_eq_nil sees).1 (each _ member)
  · intro each e member
    obtain ⟨v, rfl, sees⟩ := shows.fresh e member
    exact (nodeFindings_eq_nil sees).2 (each _ _ sees.label)

theorem domain_iff :
    RuleId.check c tier cap s .domain = [] ↔ ∀ p l, t p = some l → t.ArgumentsFit c p l := by
  unfold RuleId.check
  rw [List.flatMap_eq_nil_iff, ← shows.listed.forall_iff]
  exact forall₂_congr fun v member => domainFindings_eq_nil (shows.listed.sees v member)

theorem limits_iff :
    RuleId.check c tier cap s .limits = [] ↔
      (∀ p, (t p).isSome → p.length + 1 ≤ 8) ∧ {p | (t p).isSome}.encard ≤ 48 :=
  shows.listed.limitFindings_eq_nil

theorem fieldUsage_iff :
    RuleId.check c tier cap s .fieldUsage = [] ↔
      (∃ p id, t p = some (.field id)) ∧ t.Capped cap :=
  shows.listed.usageFindings_eq_nil

theorem placement_iff :
    RuleId.check c tier cap s .placement = [] ↔ (tier = .optimize → ∀ p l, t p = some l →
      ∀ operator role, l.operator? = some operator → c.roleOf operator = some role →
        t.Placed c p role) := by
  unfold RuleId.check
  by_cases optimize : tier = .optimize
  · simp only [optimize, if_true, forall_const]
    rw [List.flatMap_eq_nil_iff, ← shows.listed.forall_iff]
    exact forall₂_congr fun v member => placementFindings_eq_nil (shows.listed.sees v member)
  · rw [if_neg optimize]
    exact iff_of_true rfl fun other => absurd other optimize

/-- Everything but the field usage is in order exactly in what is well built. -/
theorem wellBuilt_iff (cap : Float) :
    t.WellBuilt c tier ↔ RuleId.check c tier cap s .shape = [] ∧
      RuleId.check c tier cap s .domain = [] ∧ RuleId.check c tier cap s .limits = [] ∧
        RuleId.check c tier cap s .placement = [] := by
  rw [shows.shape_iff, shows.domain_iff, shows.limits_iff, shows.placement_iff,
    Outline.placed_apply_iff]
  constructor
  · rintro ⟨nodes, domains, depth, size, placed⟩
    exact ⟨nodes, (Outline.argumentsFit_iff nodes).2 domains, ⟨depth, size⟩, placed⟩
  · rintro ⟨nodes, arguments, ⟨depth, size⟩, placed⟩
    exact ⟨nodes, (Outline.argumentsFit_iff nodes).1 arguments, depth, size, placed⟩

/-- Of what is well built, only the field usage is reported. -/
theorem findings_eq (built : t.WellBuilt c tier) :
    ({ catalog := c, cap } : Validator).findings tier s = Rules.usageFindings cap s.visits := by
  obtain ⟨shape, domain, limits, placement⟩ := (shows.wellBuilt_iff cap).1 built
  simp only [Validator.findings, RuleId.all, List.flatMap_cons, List.flatMap_nil, shape, domain,
    limits, placement, List.nil_append, List.append_nil]
  rfl

/-- The rules find nothing exactly in what conforms. -/
theorem accepted_iff :
    (({ catalog := c, cap } : Validator).report tier s).accepted = true ↔
      t.Conforms c tier cap := by
  have all : ({ catalog := c, cap } : Validator).findings tier s = [] ↔
      t.WellBuilt c tier ∧ RuleId.check c tier cap s .fieldUsage = [] := by
    rw [shows.wellBuilt_iff cap, Validator.findings, List.flatMap_eq_nil_iff]
    simp only [RuleId.all, List.forall_mem_cons, List.not_mem_nil, false_implies, implies_true,
      and_true]
    tauto
  rw [Validator.report_builtin, List.isEmpty_iff, all, shows.fieldUsage_iff]
  constructor
  · rintro ⟨built, used, capped⟩
    exact ⟨built, used, capped⟩
  · rintro ⟨built, used, capped⟩
    exact ⟨built, used, capped⟩

end Survey.Shows

end AlphaFoundry
