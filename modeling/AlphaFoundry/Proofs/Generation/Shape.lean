/-
# AlphaFoundry.Proofs.Generation.Shape -- formulas that fill a shape

A formula is typed for a target if every node is in order, every argument has a domain that its
slot accepts, no role is involved, and the root produces a domain of the target.  One application
of a suitable operator to typed arguments is typed.  What builds put at each node of a shape is said
once, by `Follows`; that such formulas are typed, and have the depth and the leaves of the shape, is
then an induction on the shape that no longer looks at the build.
-/
import Mathlib
import AlphaFoundry.Proofs.Generation.Build

namespace AlphaFoundry

set_option autoImplicit false

/-! ## Measures of shapes -/

namespace Shape

/-- The depth of the formulas of a shape; a sub-formula has one operator above its fields. -/
def depth : Shape → Nat
  | sub => 2
  | weight | complement => 1
  | wrap _ inner => inner.depth + 1
  | join _ left right => max left.depth right.depth + 1

/-- A weight occurs. -/
def weighs : Shape → Bool
  | sub => false
  | weight | complement => true
  | wrap _ inner => inner.weighs
  | join _ left right => left.weighs || right.weighs

/-- A sub-formula occurs. -/
def feeds : Shape → Bool
  | sub => true
  | weight | complement => false
  | wrap _ inner => inner.feeds
  | join _ left right => left.feeds || right.feeds

/-- Operators are asked for with as many arguments as they get, and without roles. -/
def fits : Shape → Bool
  | sub | weight | complement => true
  | wrap q inner => !q.includeRoles && (q.arity = some .unary || q.arity = some .windowed)
      && inner.fits
  | join q left right => !q.includeRoles && q.arity = some .binary && left.fits && right.fits

end Shape

/-- The shape that a plan fills. -/
def Plan.shape : Plan → Shape
  | .basic _ => .sub
  | .combined shape | .blended shape => shape

/-- The queries of a plan ask for what its shape needs. -/
def Plan.fits : Plan → Bool
  | .basic q => !q.includeRoles
  | .combined shape | .blended shape => shape.fits

/-- Every skeleton is well made: it references a field, and its formulas stay within the limits. -/
theorem Skeleton.all_fit : ∀ s ∈ Skeleton.all,
    s.plan.fits = true ∧ s.plan.shape.feeds = true ∧ s.plan.shape.depth ≤ 5 := by
  decide

/-! ## Typed formulas -/

namespace Build

variable {c : Catalog} {q : Catalog.Query} {target : List String} {op : Operator}

structure Typed (c : Catalog) (target : List String) (e : Expr) : Prop where
  ordered : e.All (Expr.InOrder c)
  takes : e.All (Expr.Takes c)
  plain : e.All (Expr.Plain c)
  output : ∃ d ∈ target, e.label.domain? c = some d

theorem typed_field {f : Field} (known : c.field? f.id = some f) (domain : f.domain ∈ target) :
    Typed c target (.field f.id) where
  ordered := Expr.all_field.2 ⟨f, known⟩
  takes := Expr.all_field.2 trivial
  plain := Expr.all_field.2 rfl
  output := ⟨f.domain, domain, by simp [Expr.label, Label.domain?, known]⟩

theorem typed_literal {value : Float} (finite : value.isFinite = true)
    (accepted : literalDomain ∈ target) : Typed c target (.literal value) where
  ordered := Expr.all_literal.2 finite
  takes := Expr.all_literal.2 trivial
  plain := Expr.all_literal.2 rfl
  output := ⟨literalDomain, accepted, rfl⟩

/-- One application of a suitable operator to typed arguments. -/
theorem typed_apply (suits : Suits c q target op) (roleless : q.includeRoles = false)
    {es : List Expr} {window : Option Float} (count : es.length = op.arity.childCount)
    (arguments : ∀ i child, es[i]? = some child → Typed c (op.slot i) child)
    (window_fits : op.WindowFits window) : Typed c target (.apply op.id es window) := by
  have each {Q : Expr → Prop} (below : ∀ i child, Typed c (op.slot i) child → child.All Q) :
      ∀ child ∈ es, child.All Q := by
    intro child member
    obtain ⟨i, at_i⟩ := List.getElem?_of_mem member
    exact below i child (arguments i child at_i)
  constructor
  case ordered =>
    refine Expr.all_apply.2 ⟨?_, each fun _ _ typed => typed.ordered⟩
    exact ⟨op, suits.known, count, window_fits⟩
  case takes =>
    refine Expr.all_apply.2 ⟨?_, each fun _ _ typed => typed.takes⟩
    intro other known i child at_i
    obtain rfl := Option.some.inj (suits.known.symm.trans known)
    obtain ⟨d, member, domain⟩ := (arguments i child at_i).output
    exact ⟨d, domain, member⟩
  case plain =>
    refine Expr.all_apply.2 ⟨?_, each fun _ _ typed => typed.plain⟩
    show c.roleOf op.id = none
    rw [Catalog.roleOf, suits.known]
    exact suits.plain roleless
  case output =>
    refine ⟨op.output, suits.output, ?_⟩
    show (c.operator? op.id).map Operator.output = some op.output
    rw [suits.known]
    rfl

/-! ## Filled shapes -/

/-- A typed formula with the depth of a shape; without literals if the shape has no weight, and with
a field if it has a sub-formula. -/
structure Fills (c : Catalog) (target : List String) (body : Shape) (e : Expr) : Prop
    extends Typed c target e where
  depth : e.depth = body.depth
  bare : body.weighs = false → e.All Expr.NotLiteral
  fed : body.feeds = true → ∃ p id, e.nodeAt? p = some (.field id)

theorem fed_apply {operator : String} {es : List Expr} {window : Option Float} {i : Nat}
    {child : Expr} (at_i : es[i]? = some child) (fed : ∃ p id, child.nodeAt? p = some (.field id)) :
    ∃ p id, (Expr.apply operator es window).nodeAt? p = some (.field id) := by
  obtain ⟨p, id, found⟩ := fed
  refine ⟨i :: p, id, ?_⟩
  rw [Expr.nodeAt?_cons]
  show es[i]?.bind (·.nodeAt? p) = _
  rw [at_i]
  exact found

theorem bare_apply {operator : String} {es : List Expr} {window : Option Float}
    (bare : ∀ child ∈ es, child.All Expr.NotLiteral) :
    (Expr.apply operator es window).All Expr.NotLiteral :=
  Expr.all_apply.2 ⟨trivial, bare⟩

variable {window : Option Float}

theorem Fills.wrap {inner : Shape} {e : Expr} (suits : Suits c q target op)
    (roleless : q.includeRoles = false) (single : op.arity.childCount = 1)
    (argument : Fills c (op.slot 0) inner e) (window_fits : op.WindowFits window) :
    Fills c target (.wrap q inner) (.apply op.id [e] window) where
  toTyped := by
    refine typed_apply suits roleless single.symm ?_ window_fits
    intro i child at_i
    obtain ⟨rfl, rfl⟩ : i = 0 ∧ e = child := by simpa [List.getElem?_singleton] using at_i
    exact argument.toTyped
  depth := by simp [Expr.depth_apply, argument.depth, Shape.depth]
  bare unweighed := bare_apply (by simpa using argument.bare unweighed)
  fed feeds := fed_apply (i := 0) rfl (argument.fed feeds)

theorem Fills.join {left right : Shape} {e₁ e₂ : Expr} (suits : Suits c q target op)
    (roleless : q.includeRoles = false) (double : op.arity.childCount = 2)
    (first : Fills c (op.slot 0) left e₁) (second : Fills c (op.slot 1) right e₂)
    (window_fits : op.WindowFits window) :
    Fills c target (.join q left right) (.apply op.id [e₁, e₂] window) where
  toTyped := by
    refine typed_apply suits roleless double.symm ?_ window_fits
    rintro (_ | _ | i) child at_i
    · obtain rfl := Option.some.inj at_i
      exact first.toTyped
    · obtain rfl := Option.some.inj at_i
      exact second.toTyped
    · simp at at_i
  depth := by simp [Expr.depth_apply, first.depth, second.depth, Shape.depth]
  bare unweighed := by
    obtain ⟨unweighed₁, unweighed₂⟩ := Bool.or_eq_false_iff.1 unweighed
    exact bare_apply (by simpa using ⟨first.bare unweighed₁, second.bare unweighed₂⟩)
  fed feeds := by
    rcases Bool.or_eq_true_iff.1 feeds with feeds | feeds
    · exact fed_apply (i := 0) rfl (first.fed feeds)
    · exact fed_apply (i := 1) rfl (second.fed feeds)

/-! ## Formulas from one operator -/

/-- A field of the catalog with one of the domains. -/
def FieldOf (c : Catalog) (domains : List String) (e : Expr) : Prop :=
  ∃ f, e = .field f.id ∧ c.field? f.id = some f ∧ f.domain ∈ domains

theorem pickField_delivers {domains avoid : List String}
    (supplied : c.fieldsByDomain domains ≠ []) :
    Delivers c (fun id => FieldOf c domains (.field id)) (pickField domains avoid) := by
  intro b same
  have supplied : b.fields.canSupply domains = true := by
    simpa [FieldPicker.canSupply, same] using supplied
  obtain ⟨f, r, picked, known, domain⟩ :=
    FieldPicker.pick?_eq_some supplied avoid b.rng
  rw [same] at known
  unfold pickField
  rw [picked]
  exact ⟨⟨f, rfl, known, domain⟩, same⟩

theorem pickFields_delivers {slots : List (List String)}
    (supplied : ∀ slot ∈ slots, c.fieldsByDomain slot ≠ []) : ∀ used : List String,
    Delivers c (fun es => es.length = slots.length ∧
      ∀ i e, es[i]? = some e → FieldOf c (slots.getD i []) e) (pickFields slots used) := by
  induction slots with
  | nil => exact fun used => .pure ⟨rfl, by simp⟩
  | cons slot slots ih =>
      intro used
      obtain ⟨here, below⟩ := List.forall_mem_cons.1 supplied
      refine (pickField_delivers here).bind fun id field => ?_
      refine (ih below (id :: used)).bind fun es fields => ?_
      obtain ⟨count, each⟩ := fields
      refine .pure ⟨by simp [count], ?_⟩
      rintro (_ | i) e at_i
      · obtain rfl := Option.some.inj at_i
        exact field
      · exact each i e at_i

theorem fills_sub (suits : Suits c q target op) (roleless : q.includeRoles = false)
    {es : List Expr} (count : es.length = op.inputs.length)
    (fields : ∀ i e, es[i]? = some e → FieldOf c (op.slot i) e)
    (window_fits : op.WindowFits window) : Fills c target .sub (.apply op.id es window) := by
  have slots := suits.sound.slots
  have positive : 0 < es.length := by
    rw [count, slots]
    cases op.arity <;> decide
  have field {i : Nat} {e : Expr} (at_i : es[i]? = some e) : ∃ id, e = .field id := by
    obtain ⟨f, rfl, -, -⟩ := fields i e at_i
    exact ⟨f.id, rfl⟩
  constructor
  case toTyped =>
    refine typed_apply suits roleless (count.trans slots) ?_ window_fits
    intro i e at_i
    obtain ⟨f, rfl, known, domain⟩ := fields i e at_i
    exact typed_field known domain
  case depth =>
    refine Expr.depth_apply_of_eq (List.ne_nil_of_length_pos positive) fun e member => ?_
    obtain ⟨i, at_i⟩ := List.getElem?_of_mem member
    obtain ⟨id, rfl⟩ := field at_i
    exact Expr.depth_field id
  case bare =>
    intro _
    refine bare_apply fun e member => ?_
    obtain ⟨i, at_i⟩ := List.getElem?_of_mem member
    obtain ⟨id, rfl⟩ := field at_i
    exact Expr.all_field.2 trivial
  case fed =>
    intro _
    have first := List.getElem?_eq_getElem positive
    obtain ⟨id, same⟩ := field first
    exact fed_apply first ⟨[], id, by rw [same]; rfl⟩

theorem basic_delivers (id : String) (roleless : q.includeRoles = false) :
    Delivers c (Fills c target .sub) (basic c id q target) := by
  unfold basic
  refine Delivers.get.bind fun b same => ?_
  dsimp only
  split
  · exact .lacking _ _
  · rename_i nonempty
    refine (pick_delivers nonempty).bind fun op member => ?_
    obtain ⟨compatible, supplied⟩ := List.mem_filter.1 member
    have suits := suits_of_mem_compatible compatible
    have supplied : ∀ slot ∈ op.inputs, c.fieldsByDomain slot ≠ [] := by
      intro slot member
      have := List.all_eq_true.1 supplied slot member
      simpa [FieldPicker.canSupply, same] using this
    refine (pickFields_delivers supplied []).bind fun es fields => ?_
    refine (windowFor_delivers suits.sound).bind fun window window_fits => ?_
    exact .pure (fills_sub suits roleless fields.1 fields.2 window_fits)

/-! ## Formulas of a shape -/

/-- A formula with the nodes that a shape asks for, for a target: a weight is written where literals
are accepted, each operator is one that was asked for, and its slots are the targets of what goes
into it.  In the place of a sub-formula stands something with a property. -/
def Follows (c : Catalog) (weight : Float) (sub : List String → Expr → Prop) :
    Shape → List String → Expr → Prop
  | .sub, target, e => sub target e
  | .weight, target, e => literalDomain ∈ target ∧ e = .literal weight
  | .complement, target, e =>
      literalDomain ∈ target ∧ e = .literal (Number.roundPlaces 2 (1 - weight))
  | .wrap q inner, target, e => ∃ op ∈ c.compatible { q with output := some target }, ∃ e₁ window,
      Follows c weight sub inner (op.slot 0) e₁ ∧ op.WindowFits window ∧
        e = .apply op.id [e₁] window
  | .join q left right, target, e => ∃ op ∈ c.compatible { q with output := some target },
      ∃ e₁ e₂ window, Follows c weight sub left (op.slot 0) e₁ ∧
        Follows c weight sub right (op.slot 1) e₂ ∧ op.WindowFits window ∧
        e = .apply op.id [e₁, e₂] window

theorem literal_delivers (id : String) (value : Float) (target : List String) :
    Delivers c (fun e => literalDomain ∈ target ∧ e = .literal value) (literal id value target) :=
  iteInduction (fun accepted => .pure ⟨by simpa using accepted, rfl⟩) fun _ => .lacking _ _

/-- Whatever delivers sub-formulas, a shape made of them is followed. -/
theorem shape_follows (id : String) (weight : Float) {P : List String → Expr → Prop}
    {sub : List String → Build Expr} (subs : ∀ target, Delivers c (P target) (sub target))
    (body : Shape) : ∀ target : List String,
      Delivers c (Follows c weight P body target) (shape c id weight sub body target) := by
  -- The target varies: a slot of the chosen operator is the target of what goes into it.
  induction body with
  | sub => exact subs
  | weight => exact literal_delivers id weight
  | complement => exact literal_delivers id _
  | wrap q inner ih =>
      intro target
      refine (pickOperator_delivers id).bind fun op member => ?_
      have sound := (suits_of_mem_compatible member).sound
      refine (ih (op.slot 0)).bind fun e made => ?_
      refine (windowFor_delivers sound).bind fun window window_fits => ?_
      exact .pure ⟨op, member, e, window, made, window_fits, rfl⟩
  | join q left right ihl ihr =>
      intro target
      refine (pickOperator_delivers id).bind fun op member => ?_
      have sound := (suits_of_mem_compatible member).sound
      refine (ihl (op.slot 0)).bind fun e₁ first => ?_
      refine (ihr (op.slot 1)).bind fun e₂ second => ?_
      refine (windowFor_delivers sound).bind fun window window_fits => ?_
      exact .pure ⟨op, member, e₁, e₂, window, first, second, window_fits, rfl⟩

/-- A property of all nodes but literals that the sub-formulas have everywhere, and both weights. -/
theorem Follows.all {weight : Float} {Q : Expr → Prop}
    (application : ∀ operator es window, Q (.apply operator es window))
    (first : Q (.literal weight)) (second : Q (.literal (Number.roundPlaces 2 (1 - weight)))) :
    ∀ {body : Shape} {target : List String} {e : Expr},
      Follows c weight (fun _ => Expr.All Q) body target e → e.All Q
  | .sub, _, _, placed => placed
  | .weight, _, _, ⟨_, same⟩ => same ▸ Expr.all_literal.2 first
  | .complement, _, _, ⟨_, same⟩ => same ▸ Expr.all_literal.2 second
  | .wrap q inner, _, _, ⟨op, _, e₁, window, below, _, same⟩ => by
      have placed := Follows.all application first second below
      exact same ▸ Expr.all_apply.2 ⟨application .., by simpa using placed⟩
  | .join q left right, _, _, ⟨op, _, e₁, e₂, window, left₁, right₂, _, same⟩ => by
      have placed₁ := Follows.all application first second left₁
      have placed₂ := Follows.all application first second right₂
      exact same ▸ Expr.all_apply.2 ⟨application .., by simpa using ⟨placed₁, placed₂⟩⟩

theorem fills_literal {value : Float} (finite : value.isFinite = true)
    (accepted : literalDomain ∈ target) {body : Shape} (unit : body.depth = 1)
    (weighs : body.weighs = true) (unfed : body.feeds = false) :
    Fills c target body (.literal value) where
  toTyped := typed_literal finite accepted
  depth := by rw [Expr.depth_literal, unit]
  bare := by simp [weighs]
  fed := by simp [unfed]

/-- A formula that follows a shape fills it if the shape is well made and its weights are finite. -/
theorem Follows.fills {weight : Float} (finite : weight.isFinite = true)
    (complement : (Number.roundPlaces 2 (1 - weight)).isFinite = true) {body : Shape} :
    ∀ {target : List String} {e : Expr}, body.fits = true →
      Follows c weight (fun target => Fills c target .sub) body target e → Fills c target body e := by
  induction body with
  | sub => exact fun _ filled => filled
  | weight =>
      rintro target _ - ⟨accepted, rfl⟩
      exact fills_literal finite accepted rfl rfl rfl
  | complement =>
      rintro target _ - ⟨accepted, rfl⟩
      exact fills_literal complement accepted rfl rfl rfl
  | wrap q inner ih =>
      rintro target _ fits ⟨op, member, e, window, below, window_fits, rfl⟩
      simp only [Shape.fits, Bool.and_eq_true, Bool.not_eq_true', Bool.or_eq_true,
        decide_eq_true_eq] at fits
      obtain ⟨⟨roleless, arity⟩, inner_fits⟩ := fits
      have suits := suits_of_mem_compatible member
      have single : op.arity.childCount = 1 := by
        rcases arity with unary | windowed
        · rw [suits.arity _ unary]; rfl
        · rw [suits.arity _ windowed]; rfl
      exact (ih inner_fits below).wrap suits roleless single window_fits
  | join q left right ihl ihr =>
      rintro target _ fits ⟨op, member, e₁, e₂, window, first, second, window_fits, rfl⟩
      simp only [Shape.fits, Bool.and_eq_true, Bool.not_eq_true', decide_eq_true_eq] at fits
      obtain ⟨⟨⟨roleless, arity⟩, fits₁⟩, fits₂⟩ := fits
      have suits := suits_of_mem_compatible member
      have double : op.arity.childCount = 2 := by
        rw [suits.arity _ arity]; rfl
      exact (ihl fits₁ first).join suits roleless double (ihr fits₂ second) window_fits

/-- Whatever delivers sub-formulas, a shape made of them is filled. -/
theorem shape_delivers (id : String) {weight : Float} (finite : weight.isFinite = true)
    (complement : (Number.roundPlaces 2 (1 - weight)).isFinite = true)
    {sub : List String → Build Expr}
    (subs : ∀ target, Delivers c (Fills c target .sub) (sub target)) {body : Shape}
    (fits : body.fits = true) (target : List String) :
    Delivers c (Fills c target body) (shape c id weight sub body target) :=
  (shape_follows id weight subs body target).mono fun _ follows =>
    follows.fills finite complement fits

theorem blendWeight_delivers {range : LiteralRange}
    (valid : Generation.LiteralRange.isValid range = true) :
    Delivers c (Number.Within 1) (blendWeight range) :=
  Delivers.bind (.draw fun r => within_uniform valid r) fun _ within =>
    .pure (within.roundPlaces (by norm_num))

/-- A skeleton is built with its shape, from whatever delivers sub-formulas. -/
theorem skeleton_delivers {range : LiteralRange}
    (valid : Generation.LiteralRange.isValid range = true) {sub : List String → Build Expr}
    (subs : ∀ target, Delivers c (Fills c target .sub) (sub target)) {s : Skeleton}
    (fits : s.plan.fits = true) (target : List String) :
    Delivers c (Fills c target s.plan.shape) (skeleton c range sub s target) := by
  unfold skeleton
  cases plan : s.plan with
  | basic q =>
      rw [plan] at fits
      exact basic_delivers s.id (by simpa [Plan.fits] using fits)
  | combined body =>
      rw [plan] at fits
      -- No weight is drawn; the one that stands in for it is finite as well.
      exact shape_delivers s.id (by decide +kernel) (by decide +kernel) subs fits target
  | blended body =>
      rw [plan] at fits
      refine (blendWeight_delivers valid).bind fun weight within => ?_
      exact shape_delivers s.id within.isFinite
        (within.complement.roundPlaces (by norm_num)).isFinite subs fits target

end Build

end AlphaFoundry
