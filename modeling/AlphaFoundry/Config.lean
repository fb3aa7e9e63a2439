/-
# AlphaFoundry.Config -- the settings that a user writes down

Every setting has a default.  A configuration is read from a YAML file; paths in it that begin with
`~/` are meant from the home directory, and the path of the catalog is made absolute.
-/
import AlphaFoundry.Candidate
import AlphaFoundry.Json.Reader
import AlphaFoundry.Log
import AlphaFoundry.Place
import AlphaFoundry.Schema
import AlphaFoundry.Source
import AlphaFoundry.Yaml.Reader

namespace AlphaFoundry

set_option autoImplicit false

namespace Config

structure Generation where
  tier : Tier
  /-- A whole number above 0. -/
  count : Float
  neutralization : String
  /-- A whole number from 0 on. -/
  seed : Option Float

/-- The numbers are whole and above 0. -/
structure Optimization where
  enabled : Bool
  iterations : Float
  patience : Float
  retriesPerIteration : Float

end Config

structure Config where
  /-- The bundled catalog is used if this is not given, or empty. -/
  catalogPath : Option String
  generation : Config.Generation
  maxFieldRepeats : Float
  optimization : Config.Optimization
  maxAttempts : Float
  outputDir : String
  level : Log.Level

namespace Config

inductive Fault where
  | notFound (path : String)
  | unreadable (path reason : String)
  | invalid (issues : List Schema.Issue)

def Fault.message : Fault → String
  | notFound path => s!"Config file not found: {path}"
  | unreadable path reason => s!"Failed to read config {path}: {reason}"
  | invalid issues =>
    "Invalid configuration: " ++ "; ".intercalate (issues.map Schema.Issue.text)

/-! ## The form of a configuration -/

open Schema

def generationForm : Form Generation :=
  block fun m =>
    Generation.mk <$> member m "tier" (orElse (oneOf Tier.name Tier.all) .creative)
      <*> member m "count" (orElse positive 5)
      <*> member m "neutralization" (orElse text "industry")
      <*> member m "seed" (optional notNegative)

def optimizationForm : Form Optimization :=
  block fun m =>
    Optimization.mk <$> member m "enabled" (orElse flag false)
      <*> member m "iterations" (orElse positive 50)
      <*> member m "patience" (orElse positive 10)
      <*> member m "retriesPerIteration" (orElse positive 5)

def form : Form Config :=
  block fun m =>
    Config.mk <$> member m "catalog" (block fun s => member s "path" (optional text))
      <*> member m "generation" generationForm
      <*> member m "validation" (block fun s => member s "maxFieldRepeats" (orElse positive 3))
      <*> member m "optimization" optimizationForm
      <*> member m "pipeline" (block fun s => member s "maxAttempts" (orElse positive 3))
      <*> member m "output"
        (block fun s => member s "dir" (orElse text "./data/generated_alphas"))
      <*> member m "logging"
        (block fun s => member s "level" (orElse (oneOf Log.Level.name Log.Level.all) .info))

/-- The configuration that a document gives.  Nothing and null leave everything at its default. -/
def parse (j : Option Json) : Except Fault Config :=
  let given := match j with
    | some .null => none
    | given => given
  (form given).toExcept.mapError .invalid

/-! ## Configuration files -/

/-- This environment variable names the configuration file. -/
def pathVariable : String := "ALPHA_FORGE_CONFIG_PATH"

def defaultPath (p : Place) : String :=
  (p.environment pathVariable).getD
    (FilePath.join p.home (FilePath.join ".alpha-forge" "config.yaml"))

/-- The file to read when a path is given, or none is. -/
def pathFor (p : Place) (given : Option String) : String :=
  p.expand (given.getD (defaultPath p))

/-- The configuration with the paths in it as they are meant. -/
def located (p : Place) (c : Config) : Config :=
  { c with
    catalogPath := c.catalogPath.map fun path => if path.isEmpty then path else p.absolute path
    outputDir := p.expand c.outputDir }

/-- The configuration of a file.  A file that is not there means defaults, unless it was asked for
by a name. -/
def ofSource (p : Place) (given : Option String) (source : Source) : Except Fault Config :=
  let path := pathFor p given
  match source with
  | .absent =>
    if (given.getD "").isEmpty then parse none else .error (.notFound path)
  | .unreadable reason => .error (.unreadable path reason)
  | .text s =>
    match Yaml.read? s with
    | some j => (parse (some j)).map (located p)
    | none => .error (.unreadable path Source.nonsense)

end Config

end AlphaFoundry
