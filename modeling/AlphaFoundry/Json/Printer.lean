/-
# AlphaFoundry.Json.Printer -- documents as JSON text

`compact` writes a document without blanks.  `pretty` puts every item and member on its own line,
two blanks deeper than the bracket around it.  Numbers that JSON lacks are written `null`.  `plain`
is no JSON: it is how a message mentions a value.
-/
import AlphaFoundry.Json.Value
import AlphaFoundry.Number.Text

namespace AlphaFoundry.Json

set_option autoImplicit false

def hexDigit (d : Nat) : Char :=
  if d < 10 then Char.ofNat (48 + d) else Char.ofNat (87 + d)

/-- What stands for a character between quotes: control characters, the quote and the backslash are
escaped. -/
def escape (c : Char) : List Char :=
  match c with
  | '"' => ['\\', '"']
  | '\\' => ['\\', '\\']
  | '\n' => ['\\', 'n']
  | '\r' => ['\\', 'r']
  | '\t' => ['\\', 't']
  | '\x08' => ['\\', 'b']
  | '\x0c' => ['\\', 'f']
  | c =>
    if c.toNat < 0x20 then ['\\', 'u', '0', '0', hexDigit (c.toNat / 16), hexDigit (c.toNat % 16)]
    else [c]

def quote (s : String) : List Char :=
  '"' :: s.toList.flatMap escape ++ ['"']

def number (x : Float) : List Char :=
  if x.isFinite then (Number.text x).toList else "null".toList

/-- A line break followed by the indentation of a level; nothing in compact text. -/
def breakLine (spread : Bool) (level : Nat) : List Char :=
  if spread then '\n' :: List.replicate (2 * level) ' ' else []

mutual

/-- The text of a document that stands at a level of nesting. -/
def write (spread : Bool) (level : Nat) : Json → List Char
  | .null => "null".toList
  | .bool true => "true".toList
  | .bool false => "false".toList
  | .num x => number x
  | .str s => quote s
  | .arr [] => ['[', ']']
  | .arr (item :: items) =>
    '[' :: breakLine spread (level + 1) ++ write spread (level + 1) item
      ++ writeItems spread (level + 1) items ++ breakLine spread level ++ [']']
  | .obj [] => ['\x7b', '\x7d']
  | .obj (m :: members) =>
    '\x7b' :: breakLine spread (level + 1) ++ writeMember spread (level + 1) m
      ++ writeMembers spread (level + 1) members ++ breakLine spread level ++ ['\x7d']

/-- The items behind the first, each with the comma before it. -/
def writeItems (spread : Bool) (level : Nat) : List Json → List Char
  | [] => []
  | item :: items =>
    ',' :: breakLine spread level ++ write spread level item ++ writeItems spread level items

def writeMember (spread : Bool) (level : Nat) : String × Json → List Char
  | (key, value) =>
    quote key ++ (if spread then [':', ' '] else [':']) ++ write spread level value

/-- The members behind the first, each with the comma before it. -/
def writeMembers (spread : Bool) (level : Nat) : List (String × Json) → List Char
  | [] => []
  | m :: members =>
    ',' :: breakLine spread level ++ writeMember spread level m ++ writeMembers spread level members

end

def compact (j : Json) : String :=
  String.ofList (write false 0 j)

def pretty (j : Json) : String :=
  String.ofList (write true 0 j)

mutual

/-- A value as a message mentions it: a text as it is, a number in full, the items of a list between
commas. -/
def plain : Json → String
  | .null => "null"
  | .bool b => if b then "true" else "false"
  | .num x => Number.text x
  | .str s => s
  | .arr items => ",".intercalate (plainItems items)
  | .obj _ => "[object Object]"

/-- Items, with nothing for null. -/
def plainItems : List Json → List String
  | [] => []
  | .null :: rest => "" :: plainItems rest
  | item :: rest => plain item :: plainItems rest

end

end AlphaFoundry.Json
