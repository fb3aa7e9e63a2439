/-
# AlphaFoundry.Catalog.Document -- catalogs from documents

The form of a definition, and the catalog that a document or the text of a file holds.
-/
import AlphaFoundry.Catalog.Basic
import AlphaFoundry.Json.Reader
import AlphaFoundry.Schema
import AlphaFoundry.Source
import AlphaFoundry.Yaml.Reader

namespace AlphaFoundry

set_option autoImplicit false

namespace Catalog

open Schema

def fieldForm : Form Field :=
  object fun m =>
    Field.mk <$> member m "id" label <*> member m "category" label <*> member m "domain" label
      <*> member m "description" (optional text)

def windowForm : Form WindowRange :=
  object fun m => WindowRange.mk <$> member m "min" number <*> member m "max" number

def operatorForm : Form Operator :=
  object fun m =>
    Operator.mk <$> member m "id" label
      <*> member m "category" (oneOf OperatorCategory.name OperatorCategory.all)
      <*> member m "arity" (oneOf Arity.name Arity.all)
      <*> member m "inputs" (list (list label))
      <*> member m "output" label
      <*> member m "template" label
      <*> member m "window" (optional windowForm)
      <*> member m "role" (optional (oneOf Role.name Role.all))
      <*> member m "tags" (orElse (list text) [])
      <*> member m "description" (optional text)

def definitionForm : Form Definition :=
  object fun m =>
    Definition.mk <$> member m "domains" (nonEmpty label)
      <*> member m "fields" (nonEmpty fieldForm)
      <*> member m "operators" (nonEmpty operatorForm)

/-- The catalog that a document defines. -/
def ofJson (j : Json) : Except Fault Catalog :=
  match Schema.read definitionForm j with
  | .ok d => create d
  | .error issues => .error (.misshapen (issues.map Issue.text))

/-- Files whose name ends so hold JSON; all others hold YAML. -/
def isJsonPath (path : String) : Bool :=
  ".json".toList.isSuffixOf (Text.lower path.toList)

/-- The catalog that a file defines. -/
def ofSource (path : String) (source : Source) : Except Fault Catalog :=
  match source with
  | .absent => .error (.unreadable path Source.absence)
  | .unreadable reason => .error (.unreadable path reason)
  | .text s =>
    match if isJsonPath path then Json.read? s else Yaml.read? s with
    | some j => ofJson j
    | none => .error (.unparsable path Source.nonsense)

end Catalog

end AlphaFoundry
