/-
# AlphaFoundry.Catalog.Basic -- the catalog and its queries

A catalog is a definition without issues.  Listings keep the order of the definition.
-/
import AlphaFoundry.Catalog.Issue
import AlphaFoundry.Json.Printer

namespace AlphaFoundry

set_option autoImplicit false

/-- A definition that has been checked. -/
structure Catalog where
  definition : Definition
  sound : definition.issues = []

namespace Catalog

/-- Why there is no catalog, or not what was asked of it. -/
inductive Fault where
  | malformed (issues : List Issue)
  /-- The document does not have the form of a definition. -/
  | misshapen (issues : List String)
  | unreadable (path reason : String)
  | unparsable (path reason : String)
  | unknownField (id : String)
  | unknownOperator (id : String)

namespace Fault

def issues : Fault → List String
  | malformed issues => issues.map Issue.message
  | misshapen issues => issues
  | _ => []

def summary : Fault → String
  | malformed _ => "Malformed catalog definition"
  | misshapen _ => "Catalog definition does not match schema"
  | unreadable path reason => s!"Cannot read catalog {path}: {reason}"
  | unparsable path reason => s!"Cannot parse catalog {path}: {reason}"
  | unknownField id => s!"Unknown field: {id}"
  | unknownOperator id => s!"Unknown operator: {id}"

/-- The summary, followed by the issues if there are any. -/
def message (f : Fault) : String :=
  if f.issues.isEmpty then f.summary else f.summary ++ ": " ++ "; ".intercalate f.issues

end Fault

/-- Accept a definition, or say what is wrong with it. -/
def create (d : Definition) : Except Fault Catalog :=
  match h : d.issues with
  | [] => .ok ⟨d, h⟩
  | issues => .error (.malformed issues)

variable (c : Catalog)

def domains : List String := c.definition.domains

def fields : List Field := c.definition.fields

def operators : List Operator := c.definition.operators

def hasDomain (domain : String) : Bool :=
  c.domains.contains domain

def field? (id : String) : Option Field :=
  c.fields.find? (·.id == id)

def operator? (id : String) : Option Operator :=
  c.operators.find? (·.id == id)

def requireField (id : String) : Except Fault Field :=
  match c.field? id with
  | some f => .ok f
  | none => .error (.unknownField id)

def requireOperator (id : String) : Except Fault Operator :=
  match c.operator? id with
  | some op => .ok op
  | none => .error (.unknownOperator id)

/-- The role of an operator, if it is known and has one. -/
def roleOf (id : String) : Option Role :=
  (c.operator? id).bind Operator.role

/-- Categories in the order of their first fields. -/
def fieldCategories : List String :=
  (c.fields.map Field.category).eraseDups

def fieldsByCategory (category : String) : List Field :=
  c.fields.filter (·.category == category)

def fieldsByDomain (domains : List String) : List Field :=
  c.fields.filter fun f => domains.contains f.domain

def operatorsByArity (arity : Arity) : List Operator :=
  c.operators.filter fun op => op.arity = arity

def operatorForRole (role : Role) : Option Operator :=
  c.operators.find? fun op => op.role = some role

/-- What an operator is asked to be.  A question left open, or an empty tag, excludes nothing. -/
structure Query where
  arity : Option Arity := none
  category : Option OperatorCategory := none
  tag : Option String := none
  /-- Domains of the arguments, each to be accepted. -/
  accepts : Option (List String) := none
  /-- Allowed output domains. -/
  output : Option (List String) := none
  /-- Wrapping operators are left out unless asked for. -/
  includeRoles : Bool := false
deriving DecidableEq

namespace Query

/-- Every slot accepts the domain offered to it, and none is left over. -/
def fits : List String → List (List String) → Bool
  | [], [] => true
  | d :: ds, slot :: slots => slot.contains d && fits ds slots
  | _, _ => false

/-- An open question is met by everything. -/
def meets {α : Type} (asked : Option α) (answer : α → Bool) : Bool :=
  match asked with
  | some a => answer a
  | none => true

def isMetBy (q : Query) (op : Operator) : Bool :=
  (q.includeRoles || op.role.isNone)
    && meets q.arity (fun a => op.arity = a)
    && meets q.category (fun k => op.category = k)
    && meets q.tag (fun t => t.isEmpty || op.tags.contains t)
    && meets q.output (fun ds => ds.contains op.output)
    && meets q.accepts (fun ds => fits ds op.inputs)

/-- The kind of operator asked for, as messages show it. -/
def kind (q : Query) : String :=
  let arity := q.arity.toList.map fun a => ("arity", Json.str a.name)
  let category := q.category.toList.map fun k => ("category", Json.str k.name)
  let tag := q.tag.toList.map fun t => ("tag", Json.str t)
  (Json.obj (arity ++ category ++ tag)).compact

end Query

def compatible (q : Query) : List Operator :=
  c.operators.filter q.isMetBy

end Catalog

end AlphaFoundry
