/-
# AlphaFoundry.Proofs.Expr.Layout -- formulas over several lines

A template is read in two ways: `fill` looks for places everywhere, and a broken call cuts its
template at commas and looks at each argument as a whole.  A character that no place can contain
splits both readings at the same point, so a call is its name and its arguments filled one by one.
The broken form writes the same as long as each argument is a place alone or has none in it that is
filled; a place with something around it stays as the template has it.
-/
import Mathlib
import AlphaFoundry.Catalog.Bundled
import AlphaFoundry.Proofs.Expr.Spelling

namespace AlphaFoundry

set_option autoImplicit false

/-! ## Texts without blanks -/

namespace Text

/-- A text with all of its blanks removed. -/
def compact (cs : List Char) : List Char :=
  cs.filter (!isBlank ·)

@[simp]
theorem compact_append (cs ds : List Char) : compact (cs ++ ds) = compact cs ++ compact ds :=
  List.filter_append cs ds

theorem compact_of_blank {cs : List Char} (blank : ∀ c ∈ cs, isBlank c = true) :
    compact cs = [] :=
  List.filter_eq_nil_iff.2 fun c member => by simp [blank c member]

theorem compact_intercalate (sep : List Char) (texts : List (List Char)) :
    compact (sep.intercalate texts) = (compact sep).intercalate (texts.map compact) := by
  induction texts with
  | nil => rfl
  | cons text texts ih =>
      cases texts with
      | nil => simp [List.intercalate]
      | cons next texts =>
          rw [List.intercalate_cons_cons, compact_append, compact_append, ih, List.map_cons,
            List.map_cons, List.map_cons, List.intercalate_cons_cons]

theorem mem_of_mem_times {n : ℕ} {s : String} {c : Char} (member : c ∈ (times n s).toList) :
    c ∈ s.toList := by
  rw [times, String.toList_join, List.mem_flatMap] at member
  obtain ⟨part, copy, member⟩ := member
  rwa [List.eq_of_mem_replicate copy] at member

end Text

namespace Template

/-! ## Filled calls -/

variable (arguments : List (List Char)) (window : Option (List Char))

theorem cutAtCommas_ne_nil (after : Bool) (cs : List Char) : cutAtCommas after cs ≠ [] := by
  fun_induction cutAtCommas after cs <;> simp_all

/-- The first of the texts between commas, and what is left to cut.  Blanks in front are dropped
only behind a comma. -/
theorem cutAtCommas_eq_cons {after : Bool} {cs text : List Char} {texts : List (List Char)}
    (cut : cutAtCommas after cs = text :: texts) :
    ∃ blanks, (∀ c ∈ blanks, after = true ∧ Text.isBlank c = true) ∧
      (cs = blanks ++ text ∧ texts = [] ∨
        ∃ rest, cs = blanks ++ (text ++ ',' :: rest) ∧ cutAtCommas true rest = texts) := by
  induction cs generalizing after text texts with
  | nil =>
      obtain ⟨rfl, rfl⟩ := List.cons.inj cut
      exact ⟨[], nofun, .inl ⟨rfl, rfl⟩⟩
  | cons c cs ih =>
      rw [cutAtCommas] at cut
      split at cut
      · rename_i comma
        obtain ⟨rfl, rfl⟩ := List.cons.inj cut
        exact ⟨[], nofun, .inr ⟨cs, by rw [eq_of_beq comma]; rfl, rfl⟩⟩
      · split at cut
        · rename_i dropped
          rw [Bool.and_eq_true] at dropped
          obtain ⟨blanks, blank, rest⟩ := ih cut
          refine ⟨c :: blanks, List.forall_mem_cons.2 ⟨dropped, fun d member =>
            ⟨dropped.1, (blank d member).2⟩⟩, ?_⟩
          rcases rest with ⟨rfl, none⟩ | ⟨rest, rfl, more⟩
          · exact .inl ⟨rfl, none⟩
          · exact .inr ⟨rest, rfl, more⟩
        · split at cut
          · rename_i none
            exact absurd none (cutAtCommas_ne_nil false cs)
          · rename_i word words found
            obtain ⟨rfl, rfl⟩ := List.cons.inj cut
            obtain ⟨blanks, blank, rest⟩ := ih found
            -- Behind a character that is kept no blank is dropped before the next comma.
            obtain rfl : blanks = [] :=
              List.eq_nil_iff_forall_not_mem.2 fun d member => by cases (blank d member).1
            refine ⟨[], nofun, ?_⟩
            rcases rest with ⟨rfl, none⟩ | ⟨rest, rfl, more⟩
            · exact .inl ⟨rfl, none⟩
            · exact .inr ⟨rest, rfl, more⟩

/-- Texts between commas can be filled one by one. -/
theorem compact_fill_cut {texts : List (List Char)} {after : Bool} {cs : List Char}
    (cut : cutAtCommas after cs = texts) :
    Text.compact (fill cs arguments window)
      = [','].intercalate (texts.map fun text => Text.compact (fill text arguments window)) := by
  induction texts generalizing after cs with
  | nil => exact absurd cut (cutAtCommas_ne_nil after cs)
  | cons text texts ih =>
      obtain ⟨blanks, blank, ⟨rfl, rfl⟩ | ⟨rest, rfl, more⟩⟩ := cutAtCommas_eq_cons cut
      all_goals
        have blank : ∀ c ∈ blanks, Text.isBlank c = true := fun c member => (blank c member).2
        rw [fill_blanks arguments window blank, Text.compact_append, Text.compact_of_blank blank,
          List.nil_append]
      · simp [List.intercalate]
      · have kept : Text.compact [','] = [','] := by decide
        rw [fill_append_cons arguments window (by decide), Text.compact_append,
          ← List.singleton_append, Text.compact_append, kept, ih more]
        cases texts with
        | nil => exact absurd more (cutAtCommas_ne_nil true rest)
        | cons next texts =>
            rw [List.map_cons, List.map_cons, List.map_cons, List.intercalate_cons_cons,
              List.append_assoc]

theorem call?_eq_some {template name : List Char} {texts : List (List Char)}
    (call : call? template = some (name, texts)) :
    (∀ c ∈ name, Text.isWord c = true) ∧
      ∃ inner, template = name ++ '(' :: (inner ++ [')']) ∧ cutAtCommas false inner = texts := by
  unfold call? at call
  rw [List.span_eq_takeWhile_dropWhile] at call
  split at call
  · cases call
  · rename_i word rest _ cut
    split at call
    · rename_i inner back
      split at call
      · cases call
      · obtain ⟨rfl, rfl⟩ := Prod.mk.inj (Option.some.inj call)
        obtain ⟨start, behind⟩ := Prod.mk.inj cut
        refine ⟨fun c member => List.mem_takeWhile_imp (start ▸ member), inner.reverse, ?_, rfl⟩
        rw [← List.reverse_cons, ← back, List.reverse_reverse, ← start, ← behind,
          List.takeWhile_append_dropWhile]
    · cases call
  · cases call

/-- A call is its name and its arguments, filled one by one. -/
theorem compact_fill_call {template name : List Char} {texts : List (List Char)}
    (call : call? template = some (name, texts)) :
    Text.compact (fill template arguments window)
      = Text.compact name ++ ['('] ++
        [','].intercalate (texts.map fun text => Text.compact (fill text arguments window))
          ++ [')'] := by
  obtain ⟨word, inner, rfl, cut⟩ := call?_eq_some call
  have plain : pieces name = name.map .char :=
    pieces_of_not_mem fun brace => absurd (word _ brace) (by decide)
  have kept : Text.compact ['('] = ['('] ∧ Text.compact [')'] = [')'] := by decide
  have rest : Text.compact (fill [] arguments window) = [] := rfl
  rw [fill_append_cons arguments window (by decide), fill_of_plain arguments window plain,
    fill_append_cons arguments window (by decide), List.append_cons, Text.compact_append,
    Text.compact_append, List.append_cons, Text.compact_append, Text.compact_append, kept.1,
    kept.2, compact_fill_cut arguments window cut, rest, List.append_nil, ← List.append_assoc]

/-! ## Arguments written out -/

/-- A place with nothing around it. -/
def IsPlace (text : List Char) : Prop :=
  (argument? text).isSome ∨ text = '\x7b' :: windowName

instance (text : List Char) : Decidable (IsPlace text) :=
  inferInstanceAs (Decidable (_ ∨ _))

/-- A template that is no call, or a call in which every argument is a place or has none in it. -/
def IsFlat (template : List Char) : Prop :=
  ∀ call ∈ call? template, ∀ text ∈ call.2, IsPlace text ∨ pieces text = text.map .char

instance (template : List Char) : Decidable (IsFlat template) :=
  inferInstanceAs (Decidable (∀ call ∈ call? template, ∀ text ∈ call.2, _ ∨ _))

theorem fill_of_argument? {text : List Char} {i : ℕ} (number : argument? text = some i) :
    fill text arguments window = (arguments[i]?).getD text := by
  obtain ⟨ds, place, rfl, rfl⟩ := argument?_eq_some number
  rw [fill, pieces_source place]
  exact List.append_nil _

end Template

/-! ## Pages -/

namespace Expr

variable {c : Catalog} {page : Page}

theorem Page.compact_pad (blank : ∀ d ∈ page.indent.toList, Text.isBlank d = true) (level : ℕ) :
    Text.compact (page.pad level).toList = [] :=
  Text.compact_of_blank fun d member => blank d (Text.mem_of_mem_times member)

theorem Page.compact_padded (blank : ∀ d ∈ page.indent.toList, Text.isBlank d = true) (level : ℕ)
    (line : String) :
    Text.compact (page.pad level ++ line).toList = Text.compact line.toList := by
  rw [String.toList_append, Text.compact_append, Page.compact_pad blank, List.nil_append]

/-- At a call, every argument that the template writes is a place, or the places in it stay as they
are written because there is nothing to fill them with. -/
def IsBreakable (c : Catalog) : Expr → Prop
  | apply operator es window =>
    ∀ op ∈ c.operator? operator, ∀ call ∈ Template.call? op.template.toList, ∀ text ∈ call.2,
      Template.IsPlace text ∨ Template.fill text (renderAll c es)
        (window.map fun w => (Number.text w).toList) = text
  | _ => True

/-- A line of a broken call: the argument whose place it is, laid out one level deeper, or what the
template has there. -/
def lineOf (page : Page) (level : ℕ) (laid : List String) (window : Option Float)
    (text : List Char) : String :=
  match (Template.argument? text).bind fun i => laid[i]? with
  | some line => line
  | none => page.pad (level + 1) ++ plainArgument window text

theorem plainArgument_of_ne {window : Option Float} {text : List Char}
    (other : text ≠ '\x7b' :: Template.windowName) :
    plainArgument window text = String.ofList text := by
  cases window with
  | none => rfl
  | some w => exact if_neg (by simpa using other)

theorem fill_windowPlace (arguments : List (List Char)) (window : Option Float) :
    Template.fill ('\x7b' :: Template.windowName) arguments
        (window.map fun w => (Number.text w).toList)
      = (plainArgument window ('\x7b' :: Template.windowName)).toList := by
  have pieces : Template.pieces ('\x7b' :: Template.windowName) = [.window] := by decide
  rw [Template.fill, pieces]
  cases window with
  | none =>
      rw [plainArgument, String.toList_ofList]
      rfl
  | some w =>
      rw [plainArgument, if_pos (beq_self_eq_true _)]
      exact List.append_nil _

theorem compact_lineOf (blank : ∀ d ∈ page.indent.toList, Text.isBlank d = true) {level : ℕ}
    {laid : List String} {arguments : List (List Char)} {window : Option Float} {text : List Char}
    (alike : laid.map (fun line => Text.compact line.toList) = arguments.map Text.compact)
    (whole : Template.IsPlace text ∨ Template.fill text arguments
      (window.map fun w => (Number.text w).toList) = text) :
    Text.compact (lineOf page level laid window text).toList
      = Text.compact (Template.fill text arguments (window.map fun w => (Number.text w).toList)) := by
  unfold lineOf
  rcases place : Template.argument? text with _ | i
  · rw [Option.bind_none]
    dsimp only
    rw [Page.compact_padded blank]
    by_cases windowed : text = '\x7b' :: Template.windowName
    · rw [windowed, fill_windowPlace]
    · rcases whole with (number | named) | unfilled
      · rw [place] at number
        cases number
      · exact absurd named windowed
      · rw [plainArgument_of_ne windowed, unfilled, String.toList_ofList]
  · have other : text ≠ '\x7b' :: Template.windowName := by
      rintro rfl
      cases place
    have each : (laid[i]?).map (fun line => Text.compact line.toList)
        = (arguments[i]?).map Text.compact := by
      rw [← List.getElem?_map, alike, List.getElem?_map]
    rw [Option.bind_some, Template.fill_of_argument? _ _ place]
    -- A place without an argument stays as it is written in both forms.
    rcases found : laid[i]? with _ | line <;> rcases found' : arguments[i]? with _ | argument <;>
      rw [found, found'] at each
    · dsimp only
      rw [Page.compact_padded blank, plainArgument_of_ne other, String.toList_ofList]
      rfl
    · cases each
    · cases each
    · exact Option.some.inj each

/-- A broken call without blanks. -/
theorem compact_broken (blank : ∀ d ∈ page.indent.toList, Text.isBlank d = true) (level : ℕ)
    (name : List Char) (lines : List String) :
    Text.compact (page.pad level ++ String.ofList name ++ "(\n" ++ ",\n".intercalate lines ++ "\n"
        ++ page.pad level ++ ")").toList
      = Text.compact name ++ ['('] ++
        [','].intercalate (lines.map fun line => Text.compact line.toList) ++ [')'] := by
  have opened : Text.compact "(\n".toList = ['('] := by decide
  have comma : Text.compact ",\n".toList = [','] := by decide
  have ended : Text.compact "\n".toList = [] := by decide
  have closed : Text.compact ")".toList = [')'] := by decide
  simp only [String.toList_append, String.toList_ofList, Text.compact_append,
    Page.compact_pad blank, String.toList_intercalate, Text.compact_intercalate, List.map_map,
    opened, comma, ended, closed, List.nil_append, List.append_nil]
  rfl

theorem layoutAll_eq_map (c : Catalog) (page : Page) (level : ℕ) (es : List Expr) :
    layoutAll c page level es = es.map (layoutAt c page level) := by
  induction es with
  | nil => rfl
  | cons e es ih => rw [layoutAll, List.map_cons, ih]

theorem compact_layoutAt (blank : ∀ d ∈ page.indent.toList, Text.isBlank d = true) {e : Expr}
    (breakable : e.All (IsBreakable c)) (level : ℕ) :
    Text.compact (layoutAt c page level e).toList = Text.compact (renderChars c e) := by
  induction e using Expr.induction generalizing level with
  | field id => exact Page.compact_padded blank level id
  | literal value => exact Page.compact_padded blank level (literalText value)
  | apply operator es window ih =>
      obtain ⟨root, below⟩ := all_apply.1 breakable
      have line := Page.compact_padded blank level (render c (apply operator es window))
      rw [render, String.toList_ofList] at line
      rw [layoutAt]
      dsimp only
      split
      · exact line
      · split
        · exact line
        · rename_i name texts call
          obtain ⟨op, known, call⟩ := Option.bind_eq_some_iff.1 call
          have laid : (layoutAll c page (level + 1) es).map (fun line => Text.compact line.toList)
              = (renderAll c es).map Text.compact := by
            rw [layoutAll_eq_map, renderAll_eq_map, List.map_map, List.map_map]
            exact List.map_congr_left fun e member => ih e member (below e member) (level + 1)
          have lines : (texts.map (lineOf page level (layoutAll c page (level + 1) es) window)).map
                (fun line => Text.compact line.toList)
              = texts.map fun text => Text.compact (Template.fill text (renderAll c es)
                  (window.map fun w => (Number.text w).toList)) := by
            rw [List.map_map]
            exact List.map_congr_left fun text member =>
              compact_lineOf blank laid (root op known (name, texts) call text member)
          rw [renderChars, known, Template.compact_fill_call _ _ call, ← lines]
          exact compact_broken blank level name _

/-- Breaking a formula over lines changes nothing but blanks, as long as the places that are filled
stand alone in their templates. -/
theorem compact_layout (blank : ∀ d ∈ page.indent.toList, Text.isBlank d = true) {e : Expr}
    (breakable : e.All (IsBreakable c)) :
    Text.compact (layout c page e).toList = Text.compact (render c e).toList := by
  rw [layout, compact_layoutAt blank breakable, render, String.toList_ofList]

/-- With flat templates every formula can be broken. -/
theorem all_isBreakable (flat : ∀ op ∈ c.operators, Template.IsFlat op.template.toList) (e : Expr) :
    e.All (IsBreakable c) := by
  rintro p (_ | _ | ⟨operator, es, window⟩) -
  · trivial
  · trivial
  · intro op known call template text member
    exact (flat op (Catalog.operator?_eq_some.1 known).1 call template text member).imp_right
      (Template.fill_of_plain _ _)

end Expr

namespace Catalog

theorem Bundled.flat : ∀ op ∈ Bundled.catalog.operators, Template.IsFlat op.template.toList := by
  decide +kernel

/-- A catalog with an operator whose place does not stand alone. -/
def doubling : Catalog :=
  ⟨{ domains := ["real"]
     fields := [⟨"close", "price", "real", none⟩]
     operators := [
       { id := "scale", category := .transform, arity := .unary, inputs := [["real"]],
         output := "real", template := "scale(\x7b0\x7d * 2)" }] }, by decide +kernel⟩

end Catalog

namespace Expr

theorem compact_layout_mean :
    layout Catalog.Bundled.catalog ⟨20, "\t"⟩
        (.apply "ts_mean" [.apply "rank" [.field "close"] none] (some 5))
      = "ts_mean(\n\trank(close),\n\t5\n)" ∧
    Text.compact (layout Catalog.Bundled.catalog ⟨20, "\t"⟩
        (.apply "ts_mean" [.apply "rank" [.field "close"] none] (some 5))).toList
      = Text.compact (render Catalog.Bundled.catalog
        (.apply "ts_mean" [.apply "rank" [.field "close"] none] (some 5))).toList :=
  ⟨by decide +kernel,
    compact_layout (List.forall_mem_singleton.2 (by decide)) (all_isBreakable Catalog.Bundled.flat _)⟩

/-- A place with something around it is not filled when its call is broken. -/
theorem layout_unfilled :
    RuleId.check Catalog.doubling .basic defaultFieldCap
        (Expr.apply "scale" [.field "close"] none).survey .shape = [] ∧
      layout Catalog.doubling ⟨1, "  "⟩ (.apply "scale" [.field "close"] none)
        = "scale(\n  \x7b0\x7d * 2\n)" ∧
      Text.compact (layout Catalog.doubling ⟨1, "  "⟩
          (.apply "scale" [.field "close"] none)).toList
        ≠ Text.compact (render Catalog.doubling (.apply "scale" [.field "close"] none)).toList := by
  refine ⟨List.isEmpty_iff.1 (by decide +kernel), by decide +kernel, by decide +kernel⟩

end Expr

end AlphaFoundry
