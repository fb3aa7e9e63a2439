/-
# AlphaFoundry.Proofs.Expr.Unfilled -- formulas that show places

A template is asked to have the places that its operator needs; that it has no others is not asked.
A place for which an operator has nothing stays in every formula with that operator, as it is
written.  Apart from that, a formula shows a place only if a template spells one around what is put
in.

`Quiet` texts show no place, and they can be put side by side: each of their braces is shut by what
stands behind it, so that no place is left open at the end.  A formula is quiet if its operators
supply all places of their templates, and the braces that the templates write are shut
(`quiet_render`).
-/
import Mathlib
import AlphaFoundry.Proofs.Expr.Spelling
import AlphaFoundry.Proofs.Number.Letters

namespace AlphaFoundry

set_option autoImplicit false

/-! ## Quiet texts -/

namespace Template

/-- A place is written somewhere in a text. -/
def ShowsPlace (cs : List Char) : Prop :=
  ∃ piece : Piece, piece.IsPlace ∧ piece.source <:+: cs

/-- An opening brace in front begins no place, whatever follows behind. -/
def Shuts (cs : List Char) : Prop :=
  ∀ more, place? (cs ++ more) = none

/-- A character that begins the inside of no place. -/
theorem shuts_cons {c : Char} (unnamed : c ≠ 'w') (noDigit : c.isDigit = false) (cs : List Char) :
    Shuts (c :: cs) := by
  intro more
  have behind : Number.NoDigit (c :: cs ++ more) := by simpa [Number.NoDigit] using noDigit
  have cut : Number.spanDigits ([] ++ (c :: cs ++ more)) = ([], c :: cs ++ more) :=
    Number.spanDigits_append (fun _ member => absurd member List.not_mem_nil) behind
  rw [List.nil_append] at cut
  rw [place?, cut, if_neg (by simp [windowName_eq, List.isPrefixOf, Ne.symm unnamed])]

theorem Shuts.append {cs : List Char} (shuts : Shuts cs) (ds : List Char) : Shuts (cs ++ ds) :=
  fun more => by rw [List.append_assoc, shuts]

/-- Every opening brace is shut by what stands behind it. -/
def Quiet (cs : List Char) : Prop :=
  ∀ before after, cs = before ++ '\x7b' :: after → Shuts after

theorem quiet_of_notMem {cs : List Char} (bare : '\x7b' ∉ cs) : Quiet cs := by
  rintro before after rfl
  exact absurd (List.mem_append_right _ List.mem_cons_self) bare

theorem Quiet.append {cs ds : List Char} (left : Quiet cs) (right : Quiet ds) :
    Quiet (cs ++ ds) := by
  intro before after split
  rcases List.append_eq_append_iff.1 split with ⟨between, rfl, behind⟩ | ⟨between, rfl, behind⟩
  · exact right between after behind
  · cases between with
    | nil => exact right [] after behind.symm
    | cons c between =>
        obtain ⟨rfl, rfl⟩ := List.cons.inj behind
        exact (left before between rfl).append ds

theorem Quiet.not_showsPlace {cs : List Char} (quiet : Quiet cs) : ¬ ShowsPlace cs := by
  rintro ⟨piece, place, before, after, rfl⟩
  obtain ⟨inner, braced⟩ := place.braced
  have found : place? (inner ++ after) = some (piece, after) :=
    place?_eq_some_iff.2 ⟨place, by rw [braced]; rfl⟩
  have shut := quiet before (inner ++ after) (by rw [List.append_assoc, braced]; rfl) []
  rw [List.append_nil, found] at shut
  cases shut

/-! ## Quiet templates -/

/-- The characters up to the next place. -/
def leading : List Piece → List Char
  | .char c :: ps => c :: leading ps
  | _ => []

/-- Every opening brace outside the places is shut by the characters up to the next place. -/
def Settled (ps : List Piece) : Prop :=
  ∀ before after, ps = before ++ .char '\x7b' :: after → Shuts (leading after)

theorem settled_nil : Settled [] :=
  fun before after split => absurd split (by simp)

theorem settled_cons {piece : Piece} {ps : List Piece} :
    Settled (piece :: ps) ↔ (piece = .char '\x7b' → Shuts (leading ps)) ∧ Settled ps := by
  constructor
  · refine fun settled => ⟨?_, fun before after split => settled (piece :: before) after ?_⟩
    · rintro rfl
      exact settled [] ps rfl
    · rw [split, List.cons_append]
  · rintro ⟨first, rest⟩ (_ | ⟨other, before⟩) after split
    · obtain ⟨rfl, rfl⟩ := List.cons.inj split
      exact first rfl
    · exact rest before after (List.cons.inj split).2

variable {write : Piece → List Char} (chars : ∀ c, write (.char c) = [c])

include chars

theorem exists_leading (ps : List Piece) :
    ∃ more, ps.flatMap write = leading ps ++ more := by
  induction ps with
  | nil => exact ⟨[], rfl⟩
  | cons piece ps ih =>
      cases piece with
      | char c =>
          obtain ⟨more, equal⟩ := ih
          exact ⟨more, by rw [List.flatMap_cons, chars, equal]; rfl⟩
      | argument ds => exact ⟨_, rfl⟩
      | window => exact ⟨_, rfl⟩

/-- Pieces are quiet if what they write is, and the braces between are shut. -/
theorem quiet_flatMap {ps : List Piece} (settled : Settled ps)
    (each : ∀ piece ∈ ps, (∃ c, piece = .char c) ∨ Quiet (write piece)) :
    Quiet (ps.flatMap write) := by
  induction ps with
  | nil => exact quiet_of_notMem List.not_mem_nil
  | cons piece ps ih =>
      obtain ⟨first, others⟩ := List.forall_mem_cons.1 each
      obtain ⟨shut, settled⟩ := settled_cons.1 settled
      have rest := ih settled others
      rw [List.flatMap_cons]
      rcases first with ⟨c, rfl⟩ | quiet
      · rw [chars, List.singleton_append]
        rintro (_ | ⟨d, before⟩) after split
        · obtain ⟨rfl, rfl⟩ := List.cons.inj split
          obtain ⟨more, equal⟩ := exists_leading chars ps
          rw [equal]
          exact (shut rfl).append more
        · exact rest before after (List.cons.inj split).2
      · exact quiet.append rest

end Template

/-! ## Formulas -/

/-- An operator has something for a place: it takes as many arguments, or a window. -/
def Operator.Supplies (op : Operator) : Template.Piece → Prop
  | .char _ => True
  | .argument ds => Number.natOfDigits ds < op.arity.childCount
  | .window => op.arity = .windowed

namespace Expr

variable {c : Catalog} {e : Expr}

/-- The template of an application supplies all of its places. -/
def Supplied (c : Catalog) : Expr → Prop
  | .apply operator _ _ => ∀ op, c.operator? operator = some op →
      ∀ piece ∈ Template.pieces op.template.toList, op.Supplies piece
  | _ => True

/-- The braces that the template of an application writes outside its places are shut. -/
def Settled (c : Catalog) : Expr → Prop
  | .apply operator _ _ => ∀ op, c.operator? operator = some op →
      Template.Settled (Template.pieces op.template.toList)
  | _ => True

/-- An application has a text for a place just if its operator supplies it. -/
theorem isSome_placeText_iff {op : Operator} {es : List Expr} {window : Option Float}
    (count : es.length = op.arity.childCount) (windowed : window.isSome ↔ op.arity = .windowed)
    {piece : Template.Piece} (place : piece.IsPlace) :
    (placeText c es window piece).isSome ↔ op.Supplies piece := by
  cases piece with
  | char x => exact place.elim
  | argument ds =>
      rw [placeText, Option.isSome_map, Operator.Supplies, ← count]
      simp
  | window =>
      rw [placeText, Option.isSome_map, windowed]
      rfl

/-- Formulas with bare field ids, supplied places and shut braces show no place. -/
theorem quiet_render (bare : ∀ f ∈ c.fields, '\x7b' ∉ f.id.toList) (ordered : e.All (InOrder c))
    (settled : e.All (Settled c)) (supplied : e.All (Supplied c)) :
    Template.Quiet (render c e).toList := by
  have all : e.All fun n => n.InOrder c ∧ n.Settled c ∧ n.Supplied c := fun p n found =>
    ⟨ordered p n found, settled p n found, supplied p n found⟩
  refine render_induction all (fun _ => And.left)
    (fun f member => Template.quiet_of_notMem (bare f member))
    (fun x => Template.quiet_of_notMem (Number.notMem_text (by decide) x)) ?_
  rintro operator es window op ⟨⟨op', known', count, windowed, -⟩, shut, supplies⟩ known each
  obtain rfl := Option.some.inj (known'.symm.trans known)
  rw [spell_eq_flatMap]
  refine Template.quiet_flatMap (fun _ => rfl) (shut op' known) fun piece member => ?_
  rcases Template.isPlace_of_mem_pieces member with place | char
  · have given : (placeText c es window piece).isSome :=
      (isSome_placeText_iff count windowed place).2 (supplies op' known piece member)
    obtain ⟨text, has⟩ := Option.isSome_iff_exists.1 given
    rw [has]
    exact .inr (each piece text has)
  · exact .inl char

/-- A place that an operator does not supply stays as it is written. -/
theorem showsPlace_of_not_supplied (ordered : e.All (InOrder c)) {p : Path} {operator : String}
    {es : List Expr} {window : Option Float} (found : e.nodeAt? p = some (.apply operator es window))
    {op : Operator} (known : c.operator? operator = some op) {piece : Template.Piece}
    (member : piece ∈ Template.pieces op.template.toList) (lacking : ¬ op.Supplies piece) :
    Template.ShowsPlace (render c e).toList := by
  obtain ⟨op', known', count, windowed, -⟩ := ordered p _ found
  obtain rfl := Option.some.inj (known.symm.trans known')
  have place : piece.IsPlace := by
    rcases Template.isPlace_of_mem_pieces member with place | ⟨x, rfl⟩
    · exact place
    · exact absurd trivial lacking
  have none : placeText c es window piece = none :=
    Option.not_isSome_iff_eq_none.1 fun some =>
      lacking ((isSome_placeText_iff count windowed place).1 some)
  have stays : piece.source <:+: (render c (.apply operator es window)).toList := by
    obtain ⟨before, after, split⟩ := List.append_of_mem member
    rw [toList_render, renderChars_apply known, spell_eq_flatMap, split, List.flatMap_append,
      List.flatMap_cons, none, ← List.append_assoc]
    exact ⟨_, _, rfl⟩
  exact ⟨piece, place, stays.trans (infix_of_nodeAt? ordered found)⟩

/-- An accepted formula shows a place exactly if it has an operator whose template has a place that
the operator does not supply: for catalogs with bare field ids, and operators whose templates shut
their other braces. -/
theorem showsPlace_iff {tier : Tier} {cap : Float} (bare : ∀ f ∈ c.fields, '\x7b' ∉ f.id.toList)
    (accepted : (({ catalog := c, cap } : Validator).validateTree e tier).accepted = true)
    (settled : e.All (Settled c)) :
    Template.ShowsPlace (render c e).toList ↔
      ∃ p operator es window op, e.nodeAt? p = some (.apply operator es window) ∧
        c.operator? operator = some op ∧
          ∃ piece ∈ Template.pieces op.template.toList, ¬ op.Supplies piece := by
  have ordered := all_inOrder_of_nodeFits (e.survey_shows.accepted_iff.1 accepted).nodes
  constructor
  · contrapose!
    intro supplies
    refine (quiet_render bare ordered settled ?_).not_showsPlace
    rintro p (_ | _ | ⟨operator, es, window⟩) found
    · trivial
    · trivial
    · exact fun op known piece member => supplies p operator es window op found known piece member
  · rintro ⟨p, operator, es, window, op, found, known, piece, member, lacking⟩
    exact showsPlace_of_not_supplied ordered found known member lacking

end Expr

namespace Catalog

/-- A catalog that is accepted although a template has a place for a window that its operator does
not take.  Other templates write braces of their own. -/
def straying : Catalog :=
  ⟨{ domains := ["real"]
     fields := [⟨"close", "price", "real", none⟩]
     operators := [
       { id := "rank", category := .crossSectional, arity := .unary, inputs := [["real"]],
         output := "real", template := "rank(\x7b0\x7d\x7bwindow\x7d)" },
       { id := "mean", category := .arithmetic, arity := .unary, inputs := [["real"]],
         output := "real", template := "mean\x7bof \x7b0\x7d\x7d" },
       { id := "set", category := .arithmetic, arity := .unary, inputs := [["real"]],
         output := "real", template := "set\x7b\x7b0\x7d\x7d" }] }, by decide +kernel⟩

theorem settled_mean : Template.Settled (Template.pieces "mean\x7bof \x7b0\x7d\x7d".toList) := by
  have pieces : Template.pieces "mean\x7bof \x7b0\x7d\x7d".toList
      = "mean\x7bof ".toList.map .char ++ [.argument ['0'], .char '\x7d'] := by decide +kernel
  rw [pieces]
  simpa [Template.settled_cons, Template.settled_nil, Template.leading]
    using Template.shuts_cons (by decide) (by decide) ['f', ' ']

end Catalog

namespace Expr

/-- The theorem at a formula without the place, though the catalog has it. -/
theorem showsPlace_iff_mean :
    (∀ f ∈ Catalog.straying.fields, '\x7b' ∉ f.id.toList) ∧
      (({ catalog := Catalog.straying } : Validator).validateTree
        (.apply "mean" [.field "close"] none) .basic).accepted = true ∧
      (Expr.apply "mean" [.field "close"] none).All (Settled Catalog.straying) ∧
      (Template.ShowsPlace (render Catalog.straying (.apply "mean" [.field "close"] none)).toList ↔
        ∃ p operator es window op,
          (Expr.apply "mean" [.field "close"] none).nodeAt? p = some (.apply operator es window) ∧
            Catalog.straying.operator? operator = some op ∧
              ∃ piece ∈ Template.pieces op.template.toList, ¬ op.Supplies piece) := by
  have bare : ∀ f ∈ Catalog.straying.fields, '\x7b' ∉ f.id.toList := by decide +kernel
  have accepted : (({ catalog := Catalog.straying } : Validator).validateTree
      (.apply "mean" [.field "close"] none) .basic).accepted = true := by decide +kernel
  have settled : (Expr.apply "mean" [.field "close"] none).All (Settled Catalog.straying) := by
    refine all_apply.2 ⟨fun op found => ?_, List.forall_mem_singleton.2 (all_field.2 trivial)⟩
    have known : Catalog.straying.operator? "mean" = some Catalog.straying.operators[1] := rfl
    obtain rfl := Option.some.inj (known.symm.trans found)
    exact Catalog.settled_mean
  exact ⟨bare, accepted, settled, showsPlace_iff bare accepted settled⟩

/-- A formula with a place that nothing fills is accepted. -/
theorem accepted_showsPlace :
    (∀ f ∈ Catalog.straying.fields, '\x7b' ∉ f.id.toList ∧ '\x7d' ∉ f.id.toList) ∧
      (({ catalog := Catalog.straying } : Validator).validateTree
        (.apply "rank" [.field "close"] none) .basic).accepted = true ∧
      Template.ShowsPlace (render Catalog.straying (.apply "rank" [.field "close"] none)).toList := by
  refine ⟨by decide +kernel, by decide +kernel, .window, trivial, ?_⟩
  exact Text.isInfixOf_iff.1 (by decide +kernel)

/-- Braces around a place spell another one when they get a number. -/
example : render Catalog.straying (.apply "set" [.literal 5] none) = "set\x7b5\x7d" := by
  decide +kernel

end Expr

end AlphaFoundry
