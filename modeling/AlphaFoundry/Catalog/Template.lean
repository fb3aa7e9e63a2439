/-
# AlphaFoundry.Catalog.Template -- written forms with places

A template is text with places in braces: a number stands for an argument, `window` for the window
length.  `fill` puts texts into the places from left to right; what is put in is not read again.  A
place for which there is nothing stays as it is written.

`call?` recognises templates of the form of a call, a name and arguments in parentheses, which can
be broken over lines.
-/
import AlphaFoundry.Number.Reading

namespace AlphaFoundry.Template

set_option autoImplicit false

inductive Piece where
  | char (c : Char)
  /-- The place of an argument, with the digits that number it. -/
  | argument (digits : List Char)
  | window
deriving Repr, DecidableEq

def windowName : List Char := "window\x7d".toList

/-- A place, without its opening brace. -/
def place? (cs : List Char) : Option (Piece × List Char) :=
  if windowName.isPrefixOf cs then some (.window, cs.drop windowName.length)
  else
    match Number.spanDigits cs with
    | ([], _) => none
    | (ds, '\x7d' :: rest) => some (.argument ds, rest)
    | _ => none

/-- The fuel is the length of the text. -/
def scan : Nat → List Char → List Piece
  | 0, _ => []
  | _ + 1, [] => []
  | fuel + 1, c :: cs =>
    if c == '\x7b' then
      match place? cs with
      | some (piece, rest) => piece :: scan fuel rest
      | none => .char c :: scan fuel cs
    else .char c :: scan fuel cs

def pieces (template : List Char) : List Piece :=
  scan template.length template

def Piece.fill (arguments : List (List Char)) (window : Option (List Char)) : Piece → List Char
  | .char c => [c]
  | .argument ds => (arguments[Number.natOfDigits ds]?).getD ('\x7b' :: ds ++ ['\x7d'])
  | .window => window.getD ('\x7b' :: windowName)

def fill (template : List Char) (arguments : List (List Char)) (window : Option (List Char)) :
    List Char :=
  (pieces template).flatMap (Piece.fill arguments window)

/-! ## Calls -/

/-- Cut at commas; blanks behind a comma are dropped. -/
def cutAtCommas (afterComma : Bool) : List Char → List (List Char)
  | [] => [[]]
  | c :: cs =>
    if c == ',' then [] :: cutAtCommas true cs
    else if afterComma && Text.isBlank c then cutAtCommas true cs
    else
      match cutAtCommas false cs with
      | [] => [[c]]
      | word :: words => (c :: word) :: words

/-- The name and the arguments of a template that is a call on one line. -/
def call? (template : List Char) : Option (List Char × List (List Char)) :=
  match template.span Text.isWord with
  | ([], _) => none
  | (name, '(' :: rest) =>
    match rest.reverse with
    | ')' :: inner =>
      if inner.any Text.isLineEnd then none else some (name, cutAtCommas false inner.reverse)
    | _ => none
  | _ => none

/-- The number of an argument that consists of a place alone. -/
def argument? : List Char → Option Nat
  | '\x7b' :: cs =>
    match Number.spanDigits cs with
    | ([], _) => none
    | (ds, ['\x7d']) => some (Number.natOfDigits ds)
    | _ => none
  | _ => none

end AlphaFoundry.Template
