/-
# AlphaFoundry.Expr.Render -- formulas as text

`render` writes the formula on one line by the templates of its operators.  `layout` writes it over
several lines: a call that does not fit in the width gets each argument on a line of its own.
-/
import AlphaFoundry.Expr.Basic
import AlphaFoundry.Catalog.Template

namespace AlphaFoundry

set_option autoImplicit false

/-- A literal with at most four places. -/
def literalText (value : Float) : String :=
  Number.text (Number.roundPlaces 4 value)

namespace Expr

/-- An operator that the catalog does not know, in call form with its window last. -/
def unknownCall (operator : String) (arguments : List (List Char)) (window : Option (List Char)) :
    List Char :=
  operator.toList ++ '(' :: ", ".toList.intercalate (arguments ++ window.toList) ++ [')']

mutual

def renderChars (c : Catalog) : Expr → List Char
  | field id => id.toList
  | literal value => (literalText value).toList
  | apply operator children window =>
    let arguments := renderAll c children
    let window := window.map fun w => (Number.text w).toList
    match c.operator? operator with
    | none => unknownCall operator arguments window
    | some op => Template.fill op.template.toList arguments window

def renderAll (c : Catalog) : List Expr → List (List Char)
  | [] => []
  | e :: rest => renderChars c e :: renderAll c rest

end

def render (c : Catalog) (e : Expr) : String :=
  String.ofList (renderChars c e)

/-- How a formula is broken over lines. -/
structure Page where
  width : Float := 60
  indent : String := "  "

def Page.pad (page : Page) (level : Nat) : String :=
  Text.times level page.indent

/-- A text fits behind the indentation of a level. -/
def Page.fits (page : Page) (level : Nat) (line : String) : Bool :=
  Number.countAtMost (Text.width (page.pad level) + Text.width line) page.width

/-- An argument of a broken call that is no child: its text, with the window length for the window
place. -/
def plainArgument (window : Option Float) (argument : List Char) : String :=
  match window with
  | some w =>
    if argument == '\x7b' :: Template.windowName then Number.text w else String.ofList argument
  | none => String.ofList argument

mutual

def layoutAt (c : Catalog) (page : Page) (level : Nat) : Expr → String
  | field id => page.pad level ++ id
  | literal value => page.pad level ++ literalText value
  | apply operator children window =>
    let line := render c (apply operator children window)
    if page.fits level line then page.pad level ++ line
    else
      match (c.operator? operator).bind fun op => Template.call? op.template.toList with
      | none => page.pad level ++ line
      | some (name, arguments) =>
        let laid := layoutAll c page (level + 1) children
        let lines := arguments.map fun a =>
          match (Template.argument? a).bind fun i => laid[i]? with
          | some text => text
          | none => page.pad (level + 1) ++ plainArgument window a
        page.pad level ++ String.ofList name ++ "(\n" ++ ",\n".intercalate lines ++ "\n"
          ++ page.pad level ++ ")"

def layoutAll (c : Catalog) (page : Page) (level : Nat) : List Expr → List String
  | [] => []
  | e :: rest => layoutAt c page level e :: layoutAll c page level rest

end

def layout (c : Catalog) (page : Page) (e : Expr) : String :=
  layoutAt c page 0 e

end Expr

end AlphaFoundry
