/-
# AlphaFoundry.Schema -- documents checked against the form that is expected of them

A `Form` reads a value of the library from a document, or from the place where one is missing.  It
does not stop at the first thing that is wrong: members and items are all read, and every issue is
reported, in the order of the form, with the path that leads to it.
-/
import AlphaFoundry.Json.Value
import AlphaFoundry.Number.Text

namespace AlphaFoundry

set_option autoImplicit false

namespace Schema

/-- Something wrong at a place in a document. -/
structure Issue where
  path : List String
  message : String
deriving Repr, DecidableEq

def Issue.place (i : Issue) : String :=
  let path := ".".intercalate i.path
  if path.isEmpty then "<root>" else path

def Issue.text (i : Issue) : String :=
  s!"{i.place}: {i.message}"

/-- A value, or everything that is wrong. -/
inductive Checked (α : Type) where
  | ok (value : α)
  | bad (issues : List Issue)

namespace Checked

variable {α β : Type}

def issues : Checked α → List Issue
  | ok _ => []
  | bad issues => issues

/-- One issue at this place. -/
def fail (message : String) : Checked α :=
  bad [⟨[], message⟩]

/-- The issues of both sides count. -/
protected def seq (f : Checked (α → β)) (x : Checked α) : Checked β :=
  match f, x with
  | ok f, ok a => ok (f a)
  | f, x => bad (f.issues ++ x.issues)

protected def map (f : α → β) : Checked α → Checked β
  | ok a => ok (f a)
  | bad issues => bad issues

instance : Applicative Checked where
  pure := ok
  map := Checked.map
  seq f x := Checked.seq f (x ())

/-- What is wrong, seen from the document above. -/
def under (key : String) : Checked α → Checked α
  | ok a => ok a
  | bad issues => bad (issues.map fun i => { i with path := key :: i.path })

def toExcept : Checked α → Except (List Issue) α
  | ok a => .ok a
  | bad issues => .error issues

end Checked

/-- What is read from a document, or from nothing. -/
abbrev Form (α : Type) := Option Json → Checked α

/-- The kind of a document, as messages name it. -/
def kind : Json → String
  | .null => "null"
  | .bool _ => "boolean"
  | .num x => if x.isNaN then "nan" else "number"
  | .str _ => "string"
  | .arr _ => "array"
  | .obj _ => "object"

def missing : String := "Required"

def mismatch {α : Type} (expected : String) (given : Option Json) : Checked α :=
  match given with
  | none => .fail missing
  | some j => .fail s!"Expected {expected}, received {kind j}"

/-! ## Simple values -/

def text : Form String
  | some (.str s) => .ok s
  | given => mismatch "string" given

/-- A text that is not empty. -/
def label : Form String
  | some (.str s) =>
    if s.isEmpty then .fail "String must contain at least 1 character(s)" else .ok s
  | given => mismatch "string" given

def flag : Form Bool
  | some (.bool b) => .ok b
  | given => mismatch "boolean" given

/-- Any number except NaN. -/
def number : Form Float
  | some (.num x) => if x.isNaN then mismatch "number" (some (.num x)) else .ok x
  | given => mismatch "number" given

/-- A number that has to be whole and to meet a bound; both can fail. -/
def whole (bound : Float → Bool) (message : String) : Form Float := fun given =>
  match number given with
  | .bad issues => .bad issues
  | .ok x =>
    let issues : List Issue :=
      (if Number.isWhole x then [] else [⟨[], "Expected integer, received float"⟩])
        ++ (if bound x then [] else [⟨[], message⟩])
    if issues.isEmpty then .ok x else .bad issues

def positive : Form Float :=
  whole (fun x => x > 0) "Number must be greater than 0"

def notNegative : Form Float :=
  whole (fun x => x >= 0) "Number must be greater than or equal to 0"

/-- One of some values, by its name. -/
def oneOf {α : Type} (name : α → String) (all : List α) : Form α := fun given =>
  let quoted (s : String) := "'" ++ s ++ "'"
  let expected := " | ".intercalate (all.map fun a => quoted (name a))
  match given with
  | some (.str s) =>
    match all.find? fun a => name a == s with
    | some a => .ok a
    | none => .fail ("Invalid enum value. Expected " ++ expected ++ ", received " ++ quoted s)
  | given => mismatch expected given

/-! ## Missing values -/

def optional {α : Type} (form : Form α) : Form (Option α)
  | none => .ok none
  | given => some <$> form given

/-- What is read in place of nothing. -/
def orElse {α : Type} (form : Form α) (standIn : α) : Form α
  | none => .ok standIn
  | given => form given

/-! ## Lists and members -/

/-- Items from a position on. -/
def items {α : Type} (form : Form α) : Nat → List Json → Checked (List α)
  | _, [] => .ok []
  | i, j :: rest => List.cons <$> (form (some j)).under (toString i) <*> items form (i + 1) rest

def list {α : Type} (form : Form α) : Form (List α)
  | some (.arr js) => items form 0 js
  | given => mismatch "array" given

/-- A list that is not empty. -/
def nonEmpty {α : Type} (form : Form α) : Form (List α)
  | some (.arr []) => .fail "Array must contain at least 1 element(s)"
  | given => list form given

/-- The members of an object. -/
abbrev Members := List (String × Json)

/-- Read the members of an object; those that are not asked for do not count. -/
def object {α : Type} (read : Members → Checked α) : Form α
  | some (.obj members) => read members
  | given => mismatch "object" given

def member {α : Type} (members : Members) (key : String) (form : Form α) : Checked α :=
  (form (members.lookup key)).under key

/-- A section of members that may be left out as a whole. -/
def block {α : Type} (read : Members → Checked α) : Form α
  | none => read []
  | given => object read given

/-- What a whole document says. -/
def read {α : Type} (form : Form α) (j : Json) : Except (List Issue) α :=
  (form (some j)).toExcept

end Schema

end AlphaFoundry
