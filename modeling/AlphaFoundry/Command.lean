/-
# AlphaFoundry.Command -- the commands of the command line

`parse` reads the words of a command line; `Usage` has the help that is shown about them.
-/
import AlphaFoundry.Arguments
import AlphaFoundry.Candidate
import AlphaFoundry.Number.Reading

namespace AlphaFoundry

set_option autoImplicit false

structure GenerateOptions where
  count : Option Float := none
  tier : Option Tier := none
  optimize : Bool := false
  iterations : Option Float := none
  seed : Option Float := none
  outputDir : Option String := none
  catalog : Option String := none
  config : Option String := none
  tree : Bool := false

structure ListingOptions where
  category : Option String := none
  arity : Option Arity := none
  catalog : Option String := none
  config : Option String := none

inductive Command where
  | generate (o : GenerateOptions)
  | display (file : String) (report : Bool)
  | fields (o : ListingOptions)
  | operators (o : ListingOptions)

namespace Command

/-! ## Values of options -/

def integer (s : String) : Except String Float :=
  match Number.numeral? s with
  | some x => if Number.isWhole x then .ok x else .error "Not an integer."
  | none => .error "Not an integer."

def positive (s : String) : Except String Float := do
  let x ← integer s
  if x < 1 then throw "Must be at least 1."
  return x

def tier (s : String) : Except String Tier :=
  match Tier.ofName? s with
  | some t => .ok t
  | none => .error ("Expected one of " ++ ", ".intercalate (Tier.all.map Tier.name) ++ ".")

def arity (s : String) : Except String Arity :=
  match Arity.all.find? fun a => a.name == s with
  | some a => .ok a
  | none => .error "Expected unary, binary or windowed."

/-! ## Options -/

def catalogAbout : String := "Catalog file (YAML or JSON)"

def configAbout : String := "Config file"

def generateFlags : List (Flag GenerateOptions) := [
  { short := some 'c', long := "count", value := some "number",
    about := "Number of alpha expressions to generate",
    set := fun s o => do return { o with count := some (← positive s) } },
  { short := some 'm', long := "mode", value := some "tier",
    about := "Generation mode (basic, creative, optimize)",
    set := fun s o => do return { o with tier := some (← tier s) } },
  { long := "optimize", about := "Optimize generated alphas before validation",
    set := fun _ o => .ok { o with optimize := true } },
  { short := some 'i', long := "iterations", value := some "number",
    about := "Optimization rounds per alpha",
    set := fun s o => do return { o with iterations := some (← positive s) } },
  { short := some 's', long := "seed", value := some "number",
    about := "Seed for reproducible batches",
    set := fun s o => do return { o with seed := some (← integer s) } },
  { short := some 'o', long := "output-dir", value := some "dir",
    about := "Directory to save results",
    set := fun s o => .ok { o with outputDir := some s } },
  { long := "catalog", value := some "path", about := catalogAbout,
    set := fun s o => .ok { o with catalog := some s } },
  { long := "config", value := some "path", about := configAbout,
    set := fun s o => .ok { o with config := some s } },
  { long := "tree", about := "Also print each expression as an indented tree",
    set := fun _ o => .ok { o with tree := true } }]

def displayFlags : List (Flag Bool) := [
  { short := some 'r', long := "report", about := "Print each validation report",
    set := fun _ _ => .ok true }]

def sourceFlags : List (Flag ListingOptions) := [
  { long := "catalog", value := some "path", about := catalogAbout,
    set := fun s o => .ok { o with catalog := some s } },
  { long := "config", value := some "path", about := configAbout,
    set := fun s o => .ok { o with config := some s } }]

def fieldFlags : List (Flag ListingOptions) :=
  { long := "category", value := some "category", about := "Filter by category",
    set := fun s o => .ok { o with category := some s } } :: sourceFlags

def operatorFlags : List (Flag ListingOptions) :=
  { long := "arity", value := some "arity",
    about := "Filter by arity (unary, binary, windowed)",
    set := fun s o => do return { o with arity := some (← arity s) } } :: sourceFlags

def versionFlag : Flag Unit :=
  { short := some 'V', long := "version", about := "output the version number",
    set := fun _ u => .ok u, stop := some .version }

/-! ## Commands -/

/-- How a command is read from its operands and its further words. -/
abbrev Reader := List String → List String → Except Stop Command

def readGenerate : Reader := fun operands unknown => do
  let (o, _) ← Arguments.leaf generateFlags ["generate"] [] {} operands unknown
  return .generate o

def readDisplay : Reader := fun operands unknown => do
  let (report, operands) ← Arguments.leaf displayFlags ["show"] ["file"] false operands unknown
  return .display (operands.headD "") report

def readFields : Reader := fun operands unknown => do
  let (o, _) ← Arguments.leaf fieldFlags ["catalog", "fields"] [] {} operands unknown
  return .fields o

def readOperators : Reader := fun operands unknown => do
  let (o, _) ← Arguments.leaf operatorFlags ["catalog", "operators"] [] {} operands unknown
  return .operators o

/-- Commands with their names, and how they are read. -/
abbrev Commands := List (String × Reader)

/-- The command that is named next among some. -/
def readBelow (flags : List (Flag Unit)) (command : List String) (below : Commands) : Reader :=
  fun operands unknown => do
    let (read, operands, unknown) ← Arguments.branch flags command (below.map Prod.fst)
      (fun name => List.lookup name below) operands unknown
    read operands unknown

def listings : Commands := [("fields", readFields), ("operators", readOperators)]

def all : Commands :=
  [("generate", readGenerate), ("show", readDisplay),
    ("catalog", readBelow [] ["catalog"] listings)]

/-- What the words of a command line ask for. -/
def parse (words : List String) : Except Stop Command :=
  readBelow [versionFlag] [] all [] words

end Command

end AlphaFoundry
