/-
# AlphaFoundry.Command.Action -- commands carried out on a host

Each command gives the exit code: 0, or 1 after a failure that it has logged, or for a command line
that cannot be read.
-/
import AlphaFoundry.Command.Usage
import AlphaFoundry.Place.Variables
import AlphaFoundry.Session
import AlphaFoundry.Sheet

namespace AlphaFoundry

set_option autoImplicit false

namespace Command

variable {m : Type → Type} [Monad m] [Host m]

/-- A failure as a note of a logger. -/
def failureNote (f : Failure) : Log.Note :=
  { level := .error, message := f.name, cause := some f.message }

/-- A failure that its user can mend is logged; any other is shown as it is. -/
def report (level : Log.Level) (f : Failure) : m Nat := do
  if f.isReported then Host.log level [failureNote f]
  else Host.say (.complaint (f.name ++ ": " ++ f.message))
  return 1

/-- Carry out what a forge has to do, to an exit code. -/
def finish (forge : Forge) (x : ForgeT m Unit) : m Nat := do
  let (result, forge) ← (ExceptT.run x).run forge
  match result with
  | .ok _ => return 0
  | .error f => report forge.level f

/-- Commands log at this level until a configuration says otherwise. -/
def logLevel : Log.Level := .info

/-- A text that is given and not empty. -/
def nonEmpty (s : Option String) : Option String :=
  s.filter fun s => !s.isEmpty

/-! ## Generating -/

def overrides (o : GenerateOptions) : Overrides where
  tier := o.tier.map Tier.name
  count := o.count
  optimize := if o.optimize then some true else none
  iterations := o.iterations
  seed := o.seed

/-- The configuration with the catalog that is asked for. -/
def withCatalog (p : Place) (o : GenerateOptions) (c : Config) : Config :=
  match nonEmpty o.catalog with
  | some path => { c with catalogPath := some (FilePath.resolve p.cwd path) }
  | none => c

def printTree (c : Catalog) (k : Candidate) : m Unit := do
  Host.print ""
  Host.print k.id
  Host.print (k.root.layout c {})

def generation (o : GenerateOptions) : ForgeT m Unit := do
  Forge.start
  let result ← Forge.run (overrides o)
  let path ← Forge.save result.records o.outputDir
  Forge.onHost (Host.print (Sheet.ofRecords result.records path))
  if o.tree then
    let c := (← Forge.started).catalog
    Forge.onHost (result.accepted.forM (printTree c))
  unless result.rejected.isEmpty do
    Forge.logged (Logged.note .warn
      s!"{result.rejected.length} candidate(s) rejected over {result.attempts} attempt(s)")

def runGenerate (p : Place) (o : GenerateOptions) : m Nat := do
  match ← Config.load p o.config with
  | .error fault => report logLevel (.config fault)
  | .ok c =>
    let forge := Forge.new p (.config (withCatalog p o c))
    finish { forge with level := logLevel } (generation o)

/-! ## Showing records -/

def runDisplay (file : String) (withReports : Bool) : m Nat := do
  let records ← Store.load logLevel file
  Host.print (Sheet.ofRecords records file)
  if withReports then
    for r in records do
      Host.print ""
      Host.print (Sheet.report r)
  return 0

/-! ## Listing the catalog -/

/-- The catalog that is asked for, or that the configuration names, or the bundled one. -/
def catalogFor (p : Place) (o : ListingOptions) : m (Except Failure Catalog) := do
  match nonEmpty o.catalog with
  | some path => load (FilePath.resolve p.cwd path)
  | none =>
    match ← Config.load p o.config with
    | .error fault => return .error (.config fault)
    | .ok c =>
      match nonEmpty c.catalogPath with
      | some path => load path
      | none => return .ok Catalog.Bundled.catalog
where
  load (path : String) : m (Except Failure Catalog) := do
    return (← Catalog.load path).mapError .catalog

def listingRule : String := Text.times 60 "─"

def fieldLine (f : Field) : String :=
  s!"{f.id} | {f.category} | {f.domain}"
    ++ String.join ((nonEmpty f.description).toList.map (" - " ++ ·))

def operatorLine (op : Operator) : String :=
  s!"{op.id} | {op.category.name} | {op.arity.name} | -> {op.output}"
    ++ String.join (op.window.toList.map fun w =>
      " | window " ++ Number.text w.min ++ ".." ++ Number.text w.max)
    ++ String.join (op.role.toList.map fun r => " | " ++ r.name)

/-- A heading, a rule and lines; or a line that says that there are none. -/
def printListing (heading : String) (lines : List String) (nothing : String) : m Unit := do
  Host.print heading
  Host.print listingRule
  (if lines.isEmpty then [nothing] else lines).forM Host.print

/-- Do something with the catalog that is asked for. -/
def withCatalogFor (p : Place) (o : ListingOptions) (act : Catalog → m Unit) : m Nat := do
  match ← catalogFor p o with
  | .error f => report logLevel f
  | .ok c =>
    act c
    return 0

def listedFields (o : ListingOptions) (c : Catalog) : List Field :=
  match nonEmpty o.category with
  | some category => c.fieldsByCategory category
  | none => c.fields

def listedOperators (o : ListingOptions) (c : Catalog) : List Operator :=
  match o.arity with
  | some arity => c.operatorsByArity arity
  | none => c.operators

/-! ## All commands -/

def perform (p : Place) : Command → m Nat
  | .generate o => runGenerate p o
  | .display file withReports => runDisplay file withReports
  | .fields o =>
    withCatalogFor p o fun c =>
      printListing "Data Fields" ((listedFields o c).map fieldLine) "No fields match."
  | .operators o =>
    withCatalogFor p o fun c =>
      printListing "Operators" ((listedOperators o c).map operatorLine) "No operators match."

/-- Where there is no command to carry out. -/
def performStop : Stop → m Nat
  | .version => do
    Host.print version
    return 0
  | .help command => do
    Host.print (Usage.text command)
    return 0
  | .incomplete command => do
    Host.say (.complaint (Usage.text command))
    return 1
  | .refused message => do
    Host.say (.complaint message)
    return 1

/-- Carry out a command line. -/
def run (p : Place) (words : List String) : m Nat := do
  let p := p.withVariables words (← Host.read (Variables.path p words))
  match parse words with
  | .ok c => perform p c
  | .error stop => performStop stop

end Command

end AlphaFoundry
