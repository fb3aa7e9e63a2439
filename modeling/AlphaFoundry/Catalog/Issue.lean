/-
# AlphaFoundry.Catalog.Issue -- what can be wrong with a definition

`Definition.issues` finds every issue of a definition: domains first, then fields, then operators
one by one, then roles.  A definition without issues makes a catalog.
-/
import AlphaFoundry.Catalog.Definition
import AlphaFoundry.Number.Text
import AlphaFoundry.Text.Units

namespace AlphaFoundry

set_option autoImplicit false

namespace Catalog

inductive Issue where
  | duplicateDomains
  | duplicateField (id : String)
  | unknownFieldDomain (id domain : String)
  | duplicateOperator (id : String)
  | slotCount (id : String) (count : Nat) (arity : Arity)
  | emptySlot (id : String) (slot : Nat)
  | unknownSlotDomain (id : String) (slot : Nat) (domain : String)
  | unknownOutput (id domain : String)
  | missingWindow (id : String)
  | invalidWindow (id : String) (range : WindowRange)
  | windowNotWritten (id : String)
  | strayWindow (id : String) (arity : Arity)
  | argumentNotWritten (id : String) (slot : Nat)
  | normalizeNotUnary (id : String)
  | neutralizeNotBinary (id : String)
  | sharedRole (role : Role)

/-- A place in a template, as it is written. -/
def place (key : String) : String :=
  "\x7b" ++ key ++ "\x7d"

namespace Issue

def message : Issue → String
  | duplicateDomains => "duplicate domain identifiers"
  | duplicateField id => s!"duplicate field id \"{id}\""
  | unknownFieldDomain id domain => s!"field \"{id}\" references unknown domain \"{domain}\""
  | duplicateOperator id => s!"duplicate operator id \"{id}\""
  | slotCount id count arity =>
    s!"operator \"{id}\" declares {count} input slots for arity {arity.name}"
  | emptySlot id slot => s!"operator \"{id}\" input {slot} accepts no domain"
  | unknownSlotDomain id slot domain =>
    s!"operator \"{id}\" input {slot} references unknown domain \"{domain}\""
  | unknownOutput id domain => s!"operator \"{id}\" outputs unknown domain \"{domain}\""
  | missingWindow id => s!"windowed operator \"{id}\" has no window range"
  | invalidWindow id range =>
    s!"operator \"{id}\" has invalid window range {Number.text range.min}..{Number.text range.max}"
  | windowNotWritten id => s!"operator \"{id}\" template lacks " ++ place "window"
  | strayWindow id arity => s!"operator \"{id}\" declares a window but is {arity.name}"
  | argumentNotWritten id slot =>
    s!"operator \"{id}\" template lacks " ++ place (toString slot)
  | normalizeNotUnary id => s!"normalize operator \"{id}\" must be unary"
  | neutralizeNotBinary id => s!"neutralize operator \"{id}\" must be binary"
  | sharedRole role => s!"more than one operator has role \"{role.name}\""

end Issue

end Catalog

/-- Both ends are whole, and `1 ≤ min ≤ max`. -/
def WindowRange.isValid (w : WindowRange) : Bool :=
  match w.bounds? with
  | some (low, high) => 1 ≤ low && low ≤ high
  | none => false

namespace Operator

open Catalog

/-- The template writes a place somewhere. -/
def writes (op : Operator) (key : String) : Bool :=
  Text.isInfixOf (place key).toList op.template.toList

def slotIssues (op : Operator) (domains : List String) (i : Nat) (slot : List String) :
    List Issue :=
  (if slot.isEmpty then [.emptySlot op.id i] else [])
    ++ (slot.filter fun d => !domains.contains d).map (.unknownSlotDomain op.id i)

def windowIssues (op : Operator) : List Issue :=
  match op.arity with
  | .windowed =>
    (match op.window with
      | none => [.missingWindow op.id]
      | some range => if range.isValid then [] else [.invalidWindow op.id range])
    ++ (if op.writes "window" then [] else [.windowNotWritten op.id])
  | arity => if op.window.isSome then [.strayWindow op.id arity] else []

def argumentIssues (op : Operator) : List Issue :=
  ((List.range op.arity.childCount).filter fun i => !op.writes (toString i)).map
    (.argumentNotWritten op.id)

def roleIssues (op : Operator) : List Issue :=
  match op.role with
  | some .normalize => if op.arity = .unary then [] else [.normalizeNotUnary op.id]
  | some .neutralize => if op.arity = .binary then [] else [.neutralizeNotBinary op.id]
  | none => []

def issues (op : Operator) (domains : List String) : List Issue :=
  (if op.inputs.length = op.arity.childCount then []
    else [.slotCount op.id op.inputs.length op.arity])
  ++ op.inputs.zipIdx.flatMap (fun p => op.slotIssues domains p.2 p.1)
  ++ (if domains.contains op.output then [] else [.unknownOutput op.id op.output])
  ++ op.windowIssues ++ op.argumentIssues ++ op.roleIssues

end Operator

namespace Definition

open Catalog

/-- Issues of the fields that follow those seen. -/
def fieldIssues (domains : List String) : List String → List Field → List Issue
  | _, [] => []
  | seen, f :: rest =>
    (if seen.contains f.id then [.duplicateField f.id] else [])
      ++ (if domains.contains f.domain then [] else [.unknownFieldDomain f.id f.domain])
      ++ fieldIssues domains (f.id :: seen) rest

/-- Issues of the operators that follow those seen. -/
def operatorIssues (domains : List String) : List String → List Operator → List Issue
  | _, [] => []
  | seen, op :: rest =>
    (if seen.contains op.id then [.duplicateOperator op.id] else [])
      ++ op.issues domains ++ operatorIssues domains (op.id :: seen) rest

/-- Roles in the order of their first holders. -/
def roles (d : Definition) : List Role :=
  (d.operators.filterMap Operator.role).eraseDups

def sharedRoles (d : Definition) : List Issue :=
  (d.roles.filter fun r => (d.operators.filterMap Operator.role).count r > 1).map .sharedRole

def issues (d : Definition) : List Issue :=
  (if d.domains.eraseDups.length = d.domains.length then [] else [.duplicateDomains])
    ++ fieldIssues d.domains [] d.fields
    ++ operatorIssues d.domains [] d.operators
    ++ d.sharedRoles

end Definition

end AlphaFoundry
