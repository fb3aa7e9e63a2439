/-
# AlphaFoundry.Proofs.Optimization.Bonus -- what wrapping adds to a score

A wrapping operator at the root puts its formula one level deeper, gives its root an operator above
it, and adds group fields behind it.  Diversity and robustness are sums over what an answer `f` says
of single visits; `filterMap_under` is the one lemma on such answers: they stay the same if `f` skips
the operator and its groups and does not see the difference below.  So a formula, neutralized or
neutralized and normalized, has the diversity, the robustness and the inner formula that it has
alone, and only the bonus is another one.
-/
import AlphaFoundry.Optimization.Score
import AlphaFoundry.Proofs.Catalog.Sound
import AlphaFoundry.Proofs.Expr.Measure

namespace AlphaFoundry

set_option autoImplicit false

namespace Score

variable {c : Catalog} {operator : String}

/-! ## Below an operator at the root -/

/-- A formula under an operator that takes fields besides it. -/
def under (operator : String) (e : Expr) (groups : List String) : Expr :=
  .apply operator (e :: groups.map .field) none

theorem childVisits_fields (operator : String) : ∀ (i : Nat) (ids : List String),
    Expr.childVisits [] operator i (ids.map .field)
      = ids.mapIdx fun n id => ⟨[i + n], .field id, [], some operator⟩
  | _, [] => by simp [Expr.childVisits]
  | i, id :: ids => by
      simp only [List.map_cons, Expr.childVisits, Expr.visitsFrom, childVisits_fields operator (i + 1)]
      simp [List.mapIdx_cons, Nat.add_assoc, Nat.add_comm 1]

theorem visits_under (operator : String) (e : Expr) (groups : List String) :
    (under operator e groups).visits
      = ⟨[], .apply operator none, (e :: groups.map .field).map Expr.label, none⟩
        :: e.visits.map (Visit.under [0] (some operator))
        ++ groups.mapIdx fun n id => ⟨[1 + n], .field id, [], some operator⟩ := by
  simp only [under, Expr.visits, Expr.visitsFrom, Expr.childVisits, childVisits_fields]
  rw [List.nil_append, Expr.visitsFrom_eq_map e [0]]
  rfl

/-- An answer that skips the operator and the fields besides is the same with and without them. -/
theorem filterMap_under {α : Type} {f : Visit → Option α} {e : Expr} {groups : List String}
    (root : ∀ v, v.label = .apply operator none → f v = none)
    (group : ∀ v id, v.label = .field id → v.parent = some operator → 0 < v.position → f v = none)
    (below : ∀ v, f (v.under [0] (some operator)) = f v) :
    (under operator e groups).visits.filterMap f = e.visits.filterMap f := by
  have none : (groups.mapIdx fun n id =>
      (⟨[1 + n], .field id, [], some operator⟩ : Visit)).filterMap f = [] := by
    simp only [List.filterMap_eq_nil_iff, List.mem_mapIdx]
    rintro _ ⟨n, bound, rfl⟩
    exact group _ _ rfl rfl (by simp [Visit.position])
  rw [visits_under, List.cons_append, List.filterMap_cons_none (root _ rfl), List.filterMap_append,
    none, List.append_nil, List.filterMap_map]
  exact List.filterMap_congr fun v _ => below v

/-- Below the operator a node has the position that it had, the root included: it comes first. -/
@[simp] theorem position_under (v : Visit) (parent : Option String) :
    (v.under [0] parent).position = v.position := by
  simp only [Visit.position, Visit.under]
  cases v.path with
  | nil => rfl
  | cons i p => simp

/-- A root is no group argument, and does not become one. -/
theorem isGroupArgument_under (v : Visit) :
    isGroupArgument c (v.under [0] (some operator)) = isGroupArgument c v := by
  by_cases root : v.path = []
  · simp [isGroupArgument, Visit.position, Visit.under, root]
  · simp only [isGroupArgument, position_under]
    simp [Visit.under, root]

section

variable (wraps : (c.roleOf operator).isSome) (e : Expr) (groups : List String)

include wraps

theorem diversity_under : diversity c (under operator e groups) = diversity c e := by
  have operators : (under operator e groups).visits.filterMap (operatorCategory c)
      = e.visits.filterMap (operatorCategory c) := by
    refine filterMap_under (fun v label => ?_) (fun v id label _ _ => ?_) fun v => rfl
    · obtain ⟨role, has⟩ := Option.isSome_iff_exists.1 wraps
      obtain ⟨op, known, has⟩ := Option.bind_eq_some_iff.1 has
      simp [operatorCategory, label, Label.operator?, known, has]
    · simp [operatorCategory, label, Label.operator?]
  have fields : (under operator e groups).visits.filterMap (fieldCategory c)
      = e.visits.filterMap (fieldCategory c) := by
    refine filterMap_under (fun v label => ?_) (fun v id label above later => ?_) fun v => ?_
    · simp [fieldCategory, label]
    · simp [fieldCategory, label, isGroupArgument, above, wraps, later]
    · simp only [fieldCategory, isGroupArgument_under]
      rfl
  rw [diversity, diversity, operators, fields]

theorem inner_under : inner c (under operator e groups) = inner c e := by
  rw [under, inner, if_pos wraps]

theorem robustness_under : robustness c (under operator e groups) = robustness c e := by
  have windows : windowTerms c (under operator e groups).visits = windowTerms c e.visits := by
    refine filterMap_under (fun v label => ?_) (fun v id label _ _ => ?_) fun v => rfl
    · simp [label]
    · simp [label]
  rw [robustness, robustness, windows, inner_under wraps]

end

/-! ## Wrapped formulas -/

/-- The inner formula is found by going down first arguments only. -/
theorem exists_nodeAt?_inner (c : Catalog) (e : Expr) :
    ∃ n, e.nodeAt? (List.replicate n 0) = some (inner c e) := by
  induction e using Expr.induction with
  | field id => exact ⟨0, by simp [inner, Expr.nodeAt?]⟩
  | literal value => exact ⟨0, by simp [inner, Expr.nodeAt?]⟩
  | apply operator children window ih =>
      rcases children with _ | ⟨child, rest⟩
      · exact ⟨0, by simp [inner, Expr.nodeAt?]⟩
      by_cases wraps : (c.roleOf operator).isSome
      · obtain ⟨n, found⟩ := ih child List.mem_cons_self
        refine ⟨n + 1, ?_⟩
        rw [inner, if_pos wraps, List.replicate_succ, Expr.nodeAt?_cons]
        exact found
      · exact ⟨0, by simp [inner, wraps, Expr.nodeAt?]⟩

/-- Some levels of wrapping operators change the score of a formula by a bonus and nothing else. -/
structure OnlyBonus (c : Catalog) (e wrapped : Expr) (levels : Nat) (extra : Weights → Float) :
    Prop where
  diversity : diversity c wrapped = diversity c e
  robustness : robustness c wrapped = robustness c e
  inner : inner c wrapped = inner c e
  /-- The inner formula is the same node, as many levels further down. -/
  place : ∃ n, e.nodeAt? (List.replicate n 0) = some (Score.inner c e) ∧
    wrapped.nodeAt? (List.replicate (n + levels) 0) = some (Score.inner c wrapped)
  bonus : ∀ w, bonus c w wrapped = extra w
  breakdown : ∀ w, breakdown c w wrapped =
    { breakdown c w e with
      total := .ofSum (w.diversity * Score.diversity c e + w.robustness * Score.robustness c e
        + extra w)
      bonus := toPlaces (extra w) }

theorem onlyBonus_of_bonus {e wrapped : Expr} {levels : Nat} {extra : Weights → Float}
    (sameDiversity : diversity c wrapped = diversity c e)
    (sameRobustness : robustness c wrapped = robustness c e) (sameInner : inner c wrapped = inner c e)
    (down : ∀ p, wrapped.nodeAt? (List.replicate levels 0 ++ p) = e.nodeAt? p)
    (gains : ∀ w, bonus c w wrapped = extra w) : OnlyBonus c e wrapped levels extra where
  diversity := sameDiversity
  robustness := sameRobustness
  inner := sameInner
  place := by
    obtain ⟨n, found⟩ := exists_nodeAt?_inner c e
    refine ⟨n, found, ?_⟩
    rw [Nat.add_comm, ← List.replicate_append_replicate, down, found, sameInner]
  bonus := gains
  breakdown w := by simp [Score.breakdown, total, sameDiversity, sameRobustness, gains]

/-- Wrapping changes nothing but the bonus, whatever is wrapped. -/
theorem wrapping_onlyBonus {neutralize normalize : String}
    (neutralizes : c.roleOf neutralize = some .neutralize)
    (normalizes : c.roleOf normalize = some .normalize) (e : Expr) (group : String) :
    let neutralized : Expr := .apply neutralize [e, .field group] none
    OnlyBonus c e neutralized 1 Weights.neutralizeBonus ∧
      OnlyBonus c e (.apply normalize [neutralized] none) 2
        fun w => w.normalizeBonus + w.neutralizeBonus := by
  intro neutralized
  have first : (c.roleOf neutralize).isSome := by rw [neutralizes]; rfl
  have second : (c.roleOf normalize).isSome := by rw [normalizes]; rfl
  constructor
  · refine onlyBonus_of_bonus (diversity_under first e [group]) (robustness_under first e [group])
      (inner_under first e [group]) (fun p => rfl) fun w => ?_
    simp [bonus, neutralized, Expr.label, Label.role?, Label.operator?, neutralizes]
  · refine onlyBonus_of_bonus
      ((diversity_under second neutralized []).trans (diversity_under first e [group]))
      ((robustness_under second neutralized []).trans (robustness_under first e [group]))
      ((inner_under second neutralized []).trans (inner_under first e [group])) (fun p => rfl)
      fun w => ?_
    simp [bonus, neutralized, Expr.label, Expr.children, Label.role?, Label.operator?, neutralizes,
      normalizes]

/-- A bare field scores the same under both operators. -/
theorem wrapping_onlyBonus_close :
    Catalog.small.roleOf "neutralize" = some .neutralize ∧
      Catalog.small.roleOf "normalize" = some .normalize ∧
      OnlyBonus Catalog.small (.field "close")
        (.apply "normalize" [.apply "neutralize" [.field "close", .field "industry"] none] none) 2
        fun w => w.normalizeBonus + w.neutralizeBonus := by
  have neutralizes : Catalog.small.roleOf "neutralize" = some .neutralize := by decide +kernel
  have normalizes : Catalog.small.roleOf "normalize" = some .normalize := by decide +kernel
  exact ⟨neutralizes, normalizes,
    (wrapping_onlyBonus neutralizes normalizes (.field "close") "industry").2⟩

end Score

end AlphaFoundry
