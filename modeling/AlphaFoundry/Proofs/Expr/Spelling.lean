/-
# AlphaFoundry.Proofs.Expr.Spelling -- written formulas lose nothing

A catalog is checked by looking for places in its templates as plain text, and a formula is written
by reading the templates from left to right.  The two agree, since a place is found wherever it is
written (`Template.pieces_place`): what an application has for a place stands at every occurrence of
the place, in full, and what was put in is not read again.  By induction on the path to it, the text
of every node stands in that of the formula; and a property of texts that filling a template keeps
is one of the formula (`render_induction`).
-/
import Mathlib
import AlphaFoundry.Expr.Render
import AlphaFoundry.Proofs.Catalog.Places
import AlphaFoundry.Proofs.Validation.Typing

namespace AlphaFoundry

set_option autoImplicit false

namespace Expr

variable {c : Catalog}

theorem toList_render (c : Catalog) (e : Expr) : (render c e).toList = renderChars c e :=
  String.toList_ofList

theorem renderAll_eq_map (c : Catalog) (es : List Expr) :
    renderAll c es = es.map (renderChars c) := by
  induction es with
  | nil => rfl
  | cons e es ih => rw [renderAll, List.map_cons, ih]

/-! ## One application -/

/-- What an application has for a place of a template. -/
def placeText (c : Catalog) (es : List Expr) (window : Option Float) :
    Template.Piece → Option (List Char)
  | .char _ => none
  | .argument ds => es[Number.natOfDigits ds]?.map fun child => (render c child).toList
  | .window => window.map fun w => (Number.text w).toList

/-- An application written by the template of its operator. -/
def spell (c : Catalog) (template : List Char) (es : List Expr) (window : Option Float) :
    List Char :=
  Template.fill template (renderAll c es) (window.map fun w => (Number.text w).toList)

theorem renderChars_apply {operator : String} {op : Operator}
    (known : c.operator? operator = some op) (es : List Expr) (window : Option Float) :
    renderChars c (.apply operator es window) = spell c op.template.toList es window := by
  rw [renderChars, known]
  rfl

/-- A place for which there is nothing stays as it is written. -/
theorem spell_eq_flatMap (c : Catalog) (template : List Char) (es : List Expr)
    (window : Option Float) : spell c template es window
      = (Template.pieces template).flatMap fun piece =>
        (placeText c es window piece).getD piece.source := by
  rw [spell, Template.fill]
  congr 1
  funext piece
  cases piece with
  | char x => rfl
  | argument ds =>
      simp only [Template.Piece.fill, renderAll_eq_map, List.getElem?_map, placeText, toList_render]
      rfl
  | window => rfl

/-- What an application has for a place stands at the place, wherever the template writes it. -/
theorem spell_place {template before after text : List Char} {es : List Expr}
    {window : Option Float} {piece : Template.Piece} (place : piece.IsPlace)
    (has : placeText c es window piece = some text)
    (written : template = before ++ (piece.source ++ after)) :
    spell c template es window
      = spell c before es window ++ (text ++ spell c after es window) := by
  simp only [spell_eq_flatMap, written, Template.pieces_place place, List.flatMap_append,
    List.flatMap_cons, has, Option.getD_some]

/-- The texts that an application has for places are all written, and stand where their places are:
the template is read once, and its places are filled together. -/
structure Spelled (c : Catalog) (template : List Char) (es : List Expr) (window : Option Float)
    (text : List Char) : Prop where
  /-- Every argument has a place. -/
  arguments : ∀ i child, es[i]? = some child → ∃ ds before after,
    (Template.Piece.argument ds).IsPlace ∧ Number.natOfDigits ds = i ∧
      template = before ++ ((Template.Piece.argument ds).source ++ after)
  /-- The window has a place. -/
  windowed : window.isSome → ∃ before after,
    template = before ++ (Template.Piece.window.source ++ after)
  places : ∀ piece before after value, piece.IsPlace → placeText c es window piece = some value →
    template = before ++ (piece.source ++ after) →
      text = spell c before es window ++ (value ++ spell c after es window)
  once : template = (Template.pieces template).flatMap Template.Piece.source ∧
    text = (Template.pieces template).flatMap fun piece =>
      (placeText c es window piece).getD piece.source

end Expr

namespace Operator.WellFormed

variable {op : Operator} {domains : List String}

/-- The template of a checked operator has a place for every argument. -/
theorem exists_argument (well : op.WellFormed domains) {i : ℕ} (within : i < op.arity.childCount) :
    ∃ ds before after, (Template.Piece.argument ds).IsPlace ∧ Number.natOfDigits ds = i ∧
      op.template.toList = before ++ ((Template.Piece.argument ds).source ++ after) := by
  obtain ⟨before, after, written⟩ := well.writesArguments i within
  refine ⟨(toString i).toList, before, after,
    ⟨Number.toString_ne_nil i, fun _ => Number.isDigit_toString⟩, Number.natOfDigits_toString i, ?_⟩
  rw [← written, List.append_assoc]
  simp [Catalog.place, Template.Piece.source]

/-- The template of a checked windowed operator has a place for the window. -/
theorem exists_window (well : op.WellFormed domains) (windowed : op.arity = .windowed) :
    ∃ before after, op.template.toList = before ++ (Template.Piece.window.source ++ after) := by
  obtain ⟨before, after, written⟩ := well.writesWindow windowed
  refine ⟨before, after, ?_⟩
  rw [← written, List.append_assoc]
  rfl

end Operator.WellFormed

namespace Expr

variable {c : Catalog} {e : Expr}

theorem spelled_of_inOrder {operator : String} {es : List Expr} {window : Option Float}
    (inOrder : (Expr.apply operator es window).InOrder c) :
    ∃ op, c.operator? operator = some op ∧
      Spelled c op.template.toList es window (render c (.apply operator es window)).toList := by
  obtain ⟨op, known, count, windowed, -⟩ := inOrder
  have well := c.wellFormed.operators op (Catalog.operator?_eq_some.1 known).1
  refine ⟨op, known, ?_⟩
  rw [toList_render, renderChars_apply known]
  constructor
  case arguments =>
    intro i child found
    exact well.exists_argument (count ▸ (List.getElem?_eq_some_iff.1 found).1)
  case windowed => exact fun given => well.exists_window (windowed.1 given)
  case places => exact fun piece before after value place has written => spell_place place has written
  case once => exact ⟨(Template.flatMap_source _).symm, spell_eq_flatMap _ _ _ _⟩

theorem Spelled.infix_of_place {template text value : List Char} {es : List Expr}
    {window : Option Float} (spelled : Spelled c template es window text)
    {piece : Template.Piece} (place : piece.IsPlace) (has : placeText c es window piece = some value)
    (written : ∃ before after, template = before ++ (piece.source ++ after)) : value <:+: text := by
  obtain ⟨before, after, written⟩ := written
  refine ⟨_, _, (List.append_assoc _ _ _).trans (spelled.places piece before after value place has
    written).symm⟩

/-! ## Whole formulas -/

/-- What is true of field ids and numbers, and of a template that is filled with texts of which it
is true, is true of written formulas. -/
theorem render_induction {P : List Char → Prop} {Q : Expr → Prop} (all : e.All Q)
    (inOrder : ∀ n, Q n → n.InOrder c) (fields : ∀ f ∈ c.fields, P f.id.toList)
    (numbers : ∀ x, P (Number.text x).toList)
    (applications : ∀ operator es window op, Q (.apply operator es window) →
      c.operator? operator = some op →
        (∀ piece text, placeText c es window piece = some text → P text) →
          P (spell c op.template.toList es window)) :
    P (render c e).toList := by
  rw [toList_render]
  induction e using Expr.induction with
  | field id =>
      obtain ⟨f, known⟩ := inOrder _ all.root
      obtain ⟨member, rfl⟩ := Catalog.field?_eq_some.1 known
      exact fields f member
  | literal value => exact numbers _
  | apply operator es window ih =>
      obtain ⟨root, below⟩ := all_apply.1 all
      obtain ⟨op, known, -⟩ := inOrder _ root
      rw [renderChars_apply known]
      refine applications operator es window op root known fun piece text has => ?_
      cases piece with
      | char x => cases has
      | argument ds =>
          obtain ⟨child, found, rfl⟩ := Option.map_eq_some_iff.1 has
          have among := List.mem_of_getElem? found
          rw [toList_render]
          exact ih child among (below child among)
      | window =>
          obtain ⟨w, -, rfl⟩ := Option.map_eq_some_iff.1 has
          exact numbers w

/-- The text of a node stands in the text of the formula, by the nodes on the way to it. -/
theorem infix_of_nodeAt? (ordered : e.All (InOrder c)) {n : Expr} {p : Path}
    (found : e.nodeAt? p = some n) : (render c n).toList <:+: (render c e).toList := by
  induction p generalizing e with
  | nil =>
      obtain rfl := Option.some.inj found
      exact List.infix_rfl
  | cons i p ih =>
      rw [nodeAt?_cons, Option.bind_eq_some_iff] at found
      obtain ⟨child, at_i, found⟩ := found
      obtain ⟨root, below⟩ := all_iff.1 ordered
      refine (ih (below child (List.mem_of_getElem? at_i)) found).trans ?_
      cases e with
      | field id => cases at_i
      | literal value => cases at_i
      | apply operator es window =>
          obtain ⟨op, -, spelled⟩ := spelled_of_inOrder root
          obtain ⟨ds, before, after, place, number, written⟩ := spelled.arguments i child at_i
          refine spelled.infix_of_place place ?_ ⟨before, after, written⟩
          rw [placeText, number]
          exact congrArg (Option.map _) at_i

/-- What the text of a formula keeps of it. -/
structure Keeps (c : Catalog) (e : Expr) : Prop where
  applications : ∀ p operator es window, e.nodeAt? p = some (.apply operator es window) →
    ∃ op, c.operator? operator = some op ∧
      Spelled c op.template.toList es window (render c (.apply operator es window)).toList
  subtrees : ∀ p n, e.nodeAt? p = some n → (render c n).toList <:+: (render c e).toList
  windows : ∀ p operator es w, e.nodeAt? p = some (.apply operator es (some w)) →
    (Number.text w).toList <:+: (render c e).toList
  fields : ∀ id ∈ Visit.fieldIds e.visits, id.toList <:+: (render c e).toList

/-- Writing a formula that the shape rule accepts loses nothing of it. -/
theorem render_keeps {tier : Tier} {cap : Float}
    (accepted : RuleId.check c tier cap e.survey .shape = []) : e.Keeps c := by
  have ordered := all_inOrder_of_nodeFits (e.survey_shows.shape_iff.1 accepted)
  constructor
  case applications => exact fun p operator es window found => spelled_of_inOrder (ordered p _ found)
  case subtrees => exact fun p n found => infix_of_nodeAt? ordered found
  case windows =>
    intro p operator es w found
    obtain ⟨op, -, spelled⟩ := spelled_of_inOrder (ordered p _ found)
    have place : Template.Piece.window.IsPlace := trivial
    exact (spelled.infix_of_place place rfl (spelled.windowed rfl)).trans
      (infix_of_nodeAt? ordered found)
  case fields =>
    intro id used
    obtain ⟨p, labelled⟩ := e.visits_list.mem_fieldIds.1 used
    obtain ⟨n, found, label⟩ := outline_eq_some.1 labelled
    have whole := infix_of_nodeAt? ordered found
    cases n with
    | field other =>
        obtain rfl := Label.field.inj label
        rwa [toList_render] at whole
    | literal value => cases label
    | apply operator es window => cases label

end Expr

namespace Catalog

/-- A catalog whose fields are called like places, and whose templates repeat places and put braces
around them. -/
def bracing : Catalog :=
  ⟨{ domains := ["real"]
     fields := [⟨"\x7b0\x7d", "price", "real", none⟩, ⟨"\x7bwindow\x7d", "price", "real", none⟩]
     operators := [
       { id := "pair", category := .arithmetic, arity := .binary, inputs := [["real"], ["real"]],
         output := "real", template := "\x7b1\x7d\x7b0\x7d\x7b\x7b1\x7d" },
       { id := "mean", category := .timeSeries, arity := .windowed, inputs := [["real"]],
         output := "real", template := "\x7b0\x7d\x7bwindow\x7d\x7b\x7bwindow\x7d\x7d",
         window := some ⟨1, 9⟩ }] }, by decide +kernel⟩

end Catalog

namespace Expr

/-- A formula in which every text that is put in looks like a place. -/
def braced : Expr :=
  .apply "mean" [.apply "pair" [.field "\x7b0\x7d", .field "\x7bwindow\x7d"] none] (some 5)

theorem render_keeps_braced :
    RuleId.check Catalog.bracing .basic defaultFieldCap braced.survey .shape = [] ∧
      braced.Keeps Catalog.bracing :=
  ⟨List.isEmpty_iff.1 (by decide +kernel),
    render_keeps (List.isEmpty_iff.1 (by decide +kernel) :
      RuleId.check Catalog.bracing .basic defaultFieldCap braced.survey .shape = [])⟩

example : render Catalog.bracing braced
    = "\x7bwindow\x7d\x7b0\x7d\x7b\x7bwindow\x7d5\x7b5\x7d" := by
  decide +kernel

end Expr

end AlphaFoundry
