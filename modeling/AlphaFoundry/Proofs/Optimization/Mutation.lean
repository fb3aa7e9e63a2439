/-
# AlphaFoundry.Proofs.Optimization.Mutation -- mutants of accepted formulas

A mutation draws a node that may be changed and puts another label in its place.  For each kind the
first theorem says which edit was made, the second that the new label may stand where the old one
stood.  Nothing else of the formula changes, so all that can go wrong is that a swapped-in field is
referenced once too often.
-/
import Mathlib
import AlphaFoundry.Proofs.Optimization.Window
import AlphaFoundry.Proofs.Rng.Draw
import AlphaFoundry.Proofs.Validation.Edit

namespace AlphaFoundry

set_option autoImplicit false

namespace Mutation

variable {c : Catalog} {e e' : Expr} {r s : Rng}

/-! ## Which edit was made -/

/-- A node that a mutation may change, with what its visit tells. -/
structure Target (c : Catalog) (e : Expr) (v : Visit) (n : Expr) : Prop where
  found : e.nodeAt? v.path = some n
  label : v.label = n.label
  sees : e.outline.Sees v
  plain : v.label.role? c = none
  inner : Score.isGroupArgument c v = false

theorem target_of_mem {v : Visit} (member : v ∈ openVisits c e) : ∃ n, Target c e v n := by
  obtain ⟨visited, isOpen⟩ := List.mem_filter.1 member
  have sees := e.visits_list.sees v visited
  obtain ⟨n, found, label⟩ := Option.map_eq_some_iff.1 sees.label
  rw [Mutation.isOpen, Bool.and_eq_true, Option.isNone_iff_eq_none, Bool.not_eq_true'] at isOpen
  exact ⟨n, found, label.symm, sees, isOpen.1, isOpen.2⟩

/-- The options that a mutation draws from are made of visits that may be changed. -/
theorem mem_options {α : Type} {f : Visit → Option α} {options : List α}
    (all : options = (openVisits c e).filterMap f) {a : α}
    (picked : r.pick? options = (some a, s)) : ∃ v n, Target c e v n ∧ f v = some a := by
  have member := Rng.mem_of_pick? picked
  rw [all, List.mem_filterMap] at member
  obtain ⟨v, member, made⟩ := member
  obtain ⟨n, target⟩ := target_of_mem member
  exact ⟨v, n, target, made⟩

theorem replaceField_eq (swapped : (replaceField c e r).1 = some e') :
    ∃ v n f, Target c e v n ∧ f ∈ fieldAlternatives c v ∧ e' = e.replaceAt v.path (.field f.id) := by
  unfold replaceField at swapped
  dsimp only at swapped
  split at swapped
  · cases swapped
  split at swapped
  · cases swapped
  rename_i path alternatives _ picked
  split at swapped
  · cases swapped
  rename_i f _ chosen
  obtain ⟨v, n, target, made⟩ := mem_options rfl picked
  split at made
  · cases made
  obtain ⟨rfl, rfl⟩ := Prod.mk.inj (Option.some.inj made)
  exact ⟨v, n, f, target, Rng.mem_of_pick? chosen, (Option.some.inj swapped).symm⟩

theorem replaceOperator_eq (swapped : (replaceOperator c e r).1 = some e') :
    ∃ v operator children window op, Target c e v (.apply operator children window) ∧
      op ∈ operatorAlternatives c v ∧ e' = e.replaceAt v.path
        (.apply op.id children (op.window.map fun range => clamp (window.getD range.min) range)) := by
  unfold replaceOperator at swapped
  dsimp only at swapped
  split at swapped
  · cases swapped
  split at swapped
  · cases swapped
  rename_i path alternatives _ picked
  split at swapped
  · rename_i op _ operator children window chosen found
    obtain ⟨v, n, target, made⟩ := mem_options rfl picked
    split at made
    · cases made
    obtain ⟨rfl, rfl⟩ := Prod.mk.inj (Option.some.inj made)
    obtain rfl := Option.some.inj (target.found.symm.trans found)
    exact ⟨v, operator, children, window, op, target, Rng.mem_of_pick? chosen,
      (Option.some.inj swapped).symm⟩
  · cases swapped

theorem replaceWindow_eq (moved : (replaceWindow c e r).1 = some e') :
    ∃ v operator children window range s new,
      Target c e v (.apply operator children (some window)) ∧
      (c.operator? operator).bind Operator.window = some range ∧
      new = clamp (moveWindow window s).1 range ∧ (new == window) = false ∧
      e' = e.replaceAt v.path (.apply operator children (some new)) := by
  unfold replaceWindow at moved
  dsimp only at moved
  split at moved
  · cases moved
  split at moved
  · cases moved
  rename_i path window range s picked
  split at moved
  · cases moved
  rename_i different
  split at moved
  · rename_i operator children w found
    obtain ⟨v, n, target, made⟩ := mem_options rfl picked
    obtain ⟨⟨window', range'⟩, known, same⟩ := Option.map_eq_some_iff.1 made
    obtain ⟨rfl, pair⟩ := Prod.mk.inj same
    obtain ⟨rfl, rfl⟩ := Prod.mk.inj pair
    obtain rfl := Option.some.inj (target.found.symm.trans found)
    have label : v.label = .apply operator w := target.label
    unfold windowOf at known
    rw [label] at known
    cases w with
    | none => cases known
    | some w =>
        obtain ⟨range', ranged, same⟩ := Option.map_eq_some_iff.1 known
        obtain ⟨rfl, rfl⟩ := Prod.mk.inj same
        exact ⟨v, operator, children, w, range', s, _, target, ranged, rfl,
          by simpa using different, (Option.some.inj moved).symm⟩
  · cases moved

/-! ## Why the new label fits -/

theorem mem_fieldAlternatives {v : Visit} {f : Field} (member : f ∈ fieldAlternatives c v) :
    ∃ id g, v.label = .field id ∧ c.field? id = some g ∧ f ∈ c.fields ∧ f.domain = g.domain ∧
      f.id ≠ id := by
  unfold fieldAlternatives at member
  split at member
  · rename_i id label
    split at member
    · rename_i g found
      obtain ⟨same, different⟩ := List.mem_filter.1 member
      obtain ⟨listed, domain⟩ := List.mem_filter.1 same
      exact ⟨id, g, label, found, listed, by simpa using domain, by simpa using different⟩
    · cases member
  · cases member

theorem fits_getElem? : ∀ {domains : List String} {slots : List (List String)},
    Catalog.Query.fits domains slots = true → ∀ {i : Nat} {d : String}, domains[i]? = some d →
      ∃ slot, slots[i]? = some slot ∧ d ∈ slot
  | [], slots, _, i, d, found => by simp at found
  | d :: domains, [], fits, _, _, _ => by simp [Catalog.Query.fits] at fits
  | d :: domains, slot :: slots, fits, i, d', found => by
      rw [Catalog.Query.fits, Bool.and_eq_true] at fits
      cases i with
      | zero =>
          obtain rfl := Option.some.inj found
          exact ⟨slot, rfl, by simpa using fits.1⟩
      | succ i => exact fits_getElem? fits.2 found

theorem mapM_getElem? {α β : Type} {f : α → Option β} : ∀ {as : List α} {bs : List β},
    as.mapM f = some bs → ∀ {i : Nat} {a : α}, as[i]? = some a →
      ∃ b, f a = some b ∧ bs[i]? = some b
  | [], _, _, i, a, found => by simp at found
  | a :: as, bs, mapped, i, a', found => by
      rw [List.mapM_cons] at mapped
      obtain ⟨b, head, mapped⟩ := Option.bind_eq_some_iff.1 mapped
      obtain ⟨rest, tail, mapped⟩ := Option.bind_eq_some_iff.1 mapped
      obtain rfl := Option.some.inj mapped
      cases i with
      | zero =>
          obtain rfl := Option.some.inj found
          exact ⟨b, head, rfl⟩
      | succ i => exact mapM_getElem? tail found

/-- An operator that may stand for another: of the same arity, for the same arguments, and without a
role. -/
structure StandsFor (c : Catalog) (v : Visit) (current op : Operator) : Prop where
  listed : op ∈ c.operators
  plain : op.role = none
  arity : op.arity = current.arity
  accepts : ∀ i (child : Label), v.children[i]? = some child →
    ∃ d, child.domain? c = some d ∧ d ∈ op.slot i
  other : op.id ≠ current.id
  above : ∀ slot, slotAbove c v = some slot → op.output ∈ slot

theorem standsFor_of_mem {v : Visit} {op current : Operator} {operator : String}
    {window : Option Float} (label : v.label = .apply operator window)
    (found : c.operator? operator = some current) (member : op ∈ operatorAlternatives c v) :
    StandsFor c v current op := by
  have applied : v.label.operator?.bind c.operator? = some current := by
    rw [label]
    exact found
  unfold operatorAlternatives at member
  rw [applied] at member
  split at member
  · rename_i current' domains same mapped
    obtain rfl := Option.some.inj same
    obtain ⟨compatible, condition⟩ := List.mem_filter.1 member
    obtain ⟨listed, met⟩ := List.mem_filter.1 compatible
    rw [Bool.and_eq_true] at condition
    simp only [Catalog.Query.isMetBy, Catalog.Query.meets, Bool.false_or, Bool.and_eq_true,
      Option.isNone_iff_eq_none, decide_eq_true_eq, and_true] at met
    obtain ⟨⟨plain, arity⟩, fits⟩ := met
    refine ⟨listed, plain, arity, ?_, by simpa using condition.1, ?_⟩
    · intro i child at_i
      obtain ⟨d, domain, inside⟩ := mapM_getElem? mapped at_i
      obtain ⟨slot, taken, accepted⟩ := fits_getElem? fits inside
      exact ⟨d, domain, by simpa [Operator.slot, taken] using accepted⟩
    · intro slot above
      have accepted := condition.2
      rw [above] at accepted
      simpa using accepted
  · cases member

/-- Where the old label fits above, so does one of the same domain. -/
theorem place_of_domain {tier : Tier} {t : Outline} {p : Path} {l new : Label}
    (built : t.WellBuilt c tier) (old : t p = some l) (same : new.domain? c = l.domain? c) :
    ∀ q i operator window op, p = q ++ [i] → t q = some (.apply operator window) →
      c.operator? operator = some op → ∃ d, new.domain? c = some d ∧ d ∈ op.slot i := by
  rintro q i operator window op rfl above found
  rw [same]
  exact built.domains q operator window op i l above found old

/-- The window that a new operator is given is one that it takes. -/
theorem windowFits_of_clamped {current op : Operator} {window : Option Float}
    {domains : List String} (sound : op.Sound domains) (arity : op.arity = current.arity)
    (takes : current.WindowFits window) :
    op.WindowFits (op.window.map fun range => clamp (window.getD range.min) range) := by
  obtain ⟨windowed, inside⟩ := takes
  refine ⟨by rw [Option.isSome_map, sound.windowed], ?_⟩
  intro w clamped
  obtain ⟨range, ranged, rfl⟩ := Option.map_eq_some_iff.1 clamped
  have own : op.arity = .windowed := sound.windowed.1 (by rw [ranged]; rfl)
  obtain ⟨old, given⟩ := Option.isSome_iff_exists.1 (windowed.2 (arity ▸ own))
  obtain ⟨_, _, _, n, -, -, whole, -⟩ := inside old given
  obtain ⟨low, high, ends, -, ordered⟩ := range.isValid_iff.1 (sound.range range ranged)
  obtain ⟨m, clamped, low_le, le_high⟩ :=
    toInt?_clamp (Number.whole_of_toInt? whole) ends ordered
  exact ⟨range, low, high, m, ranged, ends, by rw [given]; exact clamped, low_le, le_high⟩

section Edits

variable {tier : Tier} {v : Visit} (built : e.outline.WellBuilt c tier)

include built

theorem replaces_field {n : Expr} {f : Field} (target : Target c e v n)
    (member : f ∈ fieldAlternatives c v) :
    ∃ id, n = .field id ∧ f.id ≠ id ∧
      e.outline.Replaces c v.path (.field id) (.field f.id) := by
  obtain ⟨id, g, label, found, listed, domain, different⟩ := mem_fieldAlternatives member
  have node : n = .field id := by
    have := target.label.symm.trans label
    cases n <;> simp_all [Expr.label]
  have known : c.field? f.id = some f := Catalog.field?_eq_some.2 ⟨listed, rfl⟩
  have old : e.outline v.path = some (.field id) := label ▸ target.sees.label
  refine ⟨id, node, different, old, ⟨f, known⟩, ?_, ?_, rfl, rfl⟩
  · rintro _ _ _ _ _ ⟨⟩
  · refine place_of_domain built old ?_
    simp [Label.domain?, known, found, domain]

theorem replaces_operator {operator : String} {children : List Expr} {window : Option Float}
    {op : Operator} (target : Target c e v (.apply operator children window))
    (member : op ∈ operatorAlternatives c v) :
    op.id ≠ operator ∧ e.outline.Replaces c v.path (.apply operator window)
      (.apply op.id (op.window.map fun range => clamp (window.getD range.min) range)) := by
  have label : v.label = .apply operator window := target.label
  have old : e.outline v.path = some (.apply operator window) := label ▸ target.sees.label
  obtain ⟨current, found, count, takes⟩ := built.nodes _ _ old
  have stands := standsFor_of_mem label found member
  have id := (Catalog.operator?_eq_some.1 found).2
  have known : c.operator? op.id = some op := Catalog.operator?_eq_some.2 ⟨stands.listed, rfl⟩
  have sound := Catalog.operator?_sound known
  refine ⟨id ▸ stands.other, old, ⟨op, known, ?_, windowFits_of_clamped sound stands.arity takes⟩,
    ?_, ?_, label ▸ target.plain, ?_⟩
  · rw [stands.arity]
    exact count
  · rintro _ _ op' i child ⟨⟩ found' below
    obtain rfl := Option.some.inj (known.symm.trans found')
    exact stands.accepts i child ((target.sees.children i).trans below)
  · intro q i operator' window' op' path above found'
    refine ⟨op.output, by simp [Label.domain?, known], stands.above _ ?_⟩
    obtain ⟨op'', found'', inside, -⟩ := built.nodes _ _ above
    obtain rfl := Option.some.inj (found'.symm.trans found'')
    have parent : v.parent = some operator' := by
      rw [target.sees.parent, path, Outline.above, if_neg (by simp), List.dropLast_concat, above]
      rfl
    have bound : i < op'.inputs.length := by
      rw [(Catalog.operator?_sound found').slots, ← inside i, ← path, old]
      rfl
    unfold slotAbove
    rw [parent, path, List.getLast?_concat]
    simp [found', Operator.slot, bound]
  · show c.roleOf op.id = none
    rw [Catalog.roleOf, known]
    exact stands.plain

theorem replaces_window {operator : String} {children : List Expr} {window moved : Float}
    {range : WindowRange} {r : Rng}
    (target : Target c e v (.apply operator children (some window)))
    (ranged : (c.operator? operator).bind Operator.window = some range)
    (moves : moved = clamp (moveWindow window r).1 range) :
    (∃ n, Number.toInt? window = some n) ∧ e.outline.Replaces c v.path
      (.apply operator (some window)) (.apply operator (some moved)) := by
  have label : v.label = .apply operator (some window) := target.label
  have old : e.outline v.path = some (.apply operator (some window)) := label ▸ target.sees.label
  obtain ⟨op, found, count, windowed, inside⟩ := built.nodes _ _ old
  obtain ⟨range', low, high, n, ranged', ends, whole, -⟩ := inside window rfl
  rw [found, Option.bind_some, ranged'] at ranged
  obtain rfl := Option.some.inj ranged
  obtain ⟨low', high', ends', -, ordered⟩ :=
    range'.isValid_iff.1 ((Catalog.operator?_sound found).range range' ranged')
  obtain ⟨rfl, rfl⟩ := Prod.mk.inj (Option.some.inj (ends.symm.trans ends'))
  obtain ⟨m, clamped, low_le, le_high⟩ := toInt?_clamp (whole_moveWindow whole r) ends ordered
  have plain : c.roleOf operator = none := by
    have := target.plain
    rw [label] at this
    exact this
  refine ⟨⟨n, whole⟩, old, ⟨op, found, count, ?_, ?_⟩, ?_, place_of_domain built old rfl, plain,
    plain⟩
  · simpa using windowed
  · rintro _ ⟨⟩
    exact ⟨range', low, high, m, ranged', ends, moves ▸ clamped, low_le, le_high⟩
  · rintro _ _ op' i child ⟨⟩ found' below
    exact built.domains _ _ _ op' i child old found' below

end Edits

/-! ## Mutants -/

theorem replaceAt_ne {p : Path} {n new : Expr} (found : e.nodeAt? p = some n)
    (same : new.children = n.children) (other : new.label ≠ n.label) : e.replaceAt p new ≠ e := by
  intro equal
  have put := Expr.outline_replaceAt new found same
  rw [equal] at put
  have at_p : e.outline p = some n.label := by rw [Expr.outline, found, Option.map_some]
  rw [put, Outline.put_self] at at_p
  exact other (Option.some.inj at_p)

/-- After a field is swapped in, only this field can be referenced too often, and once too often. -/
theorem swapped_field_report {tier : Tier} {cap : Float} {k : Int}
    (whole : Number.toInt? cap = some k) (conforms : e.outline.Conforms c tier cap) {p : Path}
    {old new : String} (found : e.nodeAt? p = some (.field old))
    (edit : e.outline.Replaces c p (.field old) (.field new)) :
    (({ catalog := c, cap } : Validator).validateTree (e.replaceAt p (.field new)) tier).accepted
        = true ∨
      ∃ count : Nat, (count : Int) = k + 1 ∧
        (({ catalog := c, cap } : Validator).validateTree (e.replaceAt p (.field new))
          tier).violations = [(Finding.repeatedField new count cap).violation] := by
  have built := conforms.toWellBuilt
  have shows := (e.replaceAt p (.field new)).survey_shows
  rw [Expr.outline_replaceAt (.field new) found rfl] at shows
  have findings : ({ catalog := c, cap } : Validator).findings tier _ = _ :=
    shows.findings_eq (built.put edit)
  have capped (id : String) : ({q | e.outline q = some (.field id)}.ncard : Int) ≤ k := by
    have := conforms.capped id _ (Number.toInt?_eq_some.1 whole)
    rw [EReal.coe_le_coe_iff] at this
    exact_mod_cast this
  have once : ({q | e.outline.put p (.field new) q = some (.field new)}.ncard : Int) ≤ k + 1 := by
    rw [Outline.fields_put_self]
    have := Set.ncard_insert_le p {q | e.outline q = some (.field new)}
    have := capped new
    omega
  have others (third : String) (different : third ≠ new) :
      ({q | e.outline.put p (.field new) q = some (.field third)}.ncard : Int) ≤ k := by
    have := Set.ncard_le_ncard (Outline.fields_put_subset (p := p) different)
      (built.finite_fields third)
    have := capped third
    omega
  rcases shows.listed.usageFindings_of_one whole ⟨p, Outline.put_self ..⟩ once others with
    none | ⟨count, exceeds, one⟩ <;> rw [Validator.validateTree, Validator.report_builtin]
  · left
    rw [none] at findings
    exact List.isEmpty_iff.2 findings
  · right
    rw [one] at findings
    exact ⟨count, exceeds, congrArg (List.map Finding.violation) findings⟩

/-- A mutant differs from the formula and is accepted again, except that a field swapped in may be
referenced once too often; then this is all that is wrong with it. -/
theorem apply_accepted {m : Mutation} {tier : Tier} {cap : Float} {k : Int}
    (whole : Number.toInt? cap = some k)
    (accepted : (({ catalog := c, cap } : Validator).validateTree e tier).accepted = true)
    (mutant : (m.apply c e r).1 = some e') :
    e' ≠ e ∧ ((({ catalog := c, cap } : Validator).validateTree e' tier).accepted = true ∨
      m = .swapField ∧ ∃ p old new, ∃ count : Nat, e.nodeAt? p = some (.field old) ∧
        e' = e.replaceAt p (.field new) ∧ (count : Int) = k + 1 ∧
        (({ catalog := c, cap } : Validator).validateTree e' tier).violations
          = [(Finding.repeatedField new count cap).violation]) := by
  have conforms := e.survey_shows.accepted_iff.1 accepted
  have built := conforms.toWellBuilt
  cases m with
  | swapField =>
      obtain ⟨v, n, f, target, member, rfl⟩ := replaceField_eq mutant
      obtain ⟨id, rfl, different, edit⟩ := replaces_field built target member
      have changed : (Expr.field f.id).label ≠ (Expr.field id).label := by
        intro equal
        exact different (Label.field.inj equal)
      refine ⟨replaceAt_ne target.found rfl changed, ?_⟩
      rcases swapped_field_report whole conforms target.found edit with again | ⟨count, exceeds, one⟩
      · exact .inl again
      · exact .inr ⟨rfl, v.path, id, f.id, count, target.found, rfl, exceeds, one⟩
  | swapOperator =>
      obtain ⟨v, operator, children, window, op, target, member, rfl⟩ := replaceOperator_eq mutant
      obtain ⟨different, edit⟩ := replaces_operator built target member
      refine ⟨replaceAt_ne target.found rfl ?_, .inl ?_⟩
      · intro equal
        exact different (Label.apply.inj equal).1
      · refine (Expr.survey_shows _).accepted_iff.2 ?_
        rw [Expr.outline_replaceAt (.apply op.id children _) target.found rfl]
        exact conforms.put_apply edit
  | adjustWindow =>
      obtain ⟨v, operator, children, window, range, s, new, target, ranged, moves, moved, rfl⟩ :=
        replaceWindow_eq mutant
      obtain ⟨⟨n, value⟩, edit⟩ := replaces_window built target ranged moves
      refine ⟨replaceAt_ne target.found rfl ?_, .inl ?_⟩
      · intro equal
        have same := Option.some.inj (Label.apply.inj equal).2
        have value := Number.toInt?_eq_some.1 value
        rw [same, (Number.beq_iff value value).2 rfl] at moved
        cases moved
      · refine (Expr.survey_shows _).accepted_iff.2 ?_
        rw [Expr.outline_replaceAt (.apply operator children (some new)) target.found rfl]
        exact conforms.put_apply edit

theorem apply_accepted_sum : ∃ e', (swapField.apply Catalog.small
      (.apply "add" [.field "close", .field "volume"] none) ⟨0⟩).1 = some e' ∧
    e' ≠ .apply "add" [.field "close", .field "volume"] none := by
  have accepted : (({ catalog := Catalog.small, cap := 1 } : Validator).validateTree
      (.apply "add" [.field "close", .field "volume"] none) .basic).accepted = true := by
    decide +kernel
  have whole : Number.toInt? 1 = some 1 := by decide +kernel
  have applies : (swapField.apply Catalog.small
      (.apply "add" [.field "close", .field "volume"] none) ⟨0⟩).1.isSome = true := by
    decide +kernel
  obtain ⟨e', mutant⟩ := Option.isSome_iff_exists.1 applies
  exact ⟨e', mutant, (apply_accepted whole accepted mutant).1⟩

end Mutation

end AlphaFoundry
