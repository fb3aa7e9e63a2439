/-
# AlphaFoundry.Session -- a configured library at work

A forge is started once: it then has its configuration and its catalog, runs pipelines and saves
what they accept.  Its logger shows what the configuration asks for from the start on.
-/
import AlphaFoundry.Catalog.Bundled
import AlphaFoundry.Host
import AlphaFoundry.Pipeline
import AlphaFoundry.Store

namespace AlphaFoundry

set_option autoImplicit false

def version : String := "0.1.0"

/-- What a started forge works with. -/
structure Session where
  config : Config
  validator : Validator

/-- What a caller asks of a run in place of what is configured. -/
structure Overrides where
  tier : Option String := none
  count : Option Float := none
  optimize : Option Bool := none
  iterations : Option Float := none
  seed : Option Float := none
  neutralization : Option String := none

structure RunResult where
  accepted : List Candidate
  rejected : List Candidate
  attempts : Nat
  requested : Float
  records : List Record

namespace Session

variable (s : Session)

def ofCatalog (config : Config) (catalog : Catalog) : Session :=
  ⟨config, { catalog, cap := config.maxFieldRepeats }⟩

def catalog : Catalog := s.validator.catalog

/-- The seed that is asked for, if one is. -/
def seed? (o : Overrides) : Option Float :=
  o.seed <|> s.config.generation.seed

def request (o : Overrides) (seed : Float) : Pipeline.Request where
  tier := o.tier.getD s.config.generation.tier.name
  count := o.count.getD s.config.generation.count
  optimize := o.optimize.getD s.config.optimization.enabled
  iterations := o.iterations.getD s.config.optimization.iterations
  maxAttempts := s.config.maxAttempts
  seed
  neutralization := o.neutralization.getD s.config.generation.neutralization
  maxFieldRepeats := s.config.maxFieldRepeats

def searchSettings (seed : Float) : Search.Settings where
  iterations := s.config.optimization.iterations
  patience := s.config.optimization.patience
  retries := s.config.optimization.retriesPerIteration
  seed

/-- Run the pipeline, from a seed. -/
def run (o : Overrides) (seed : Float) : Logged Failure RunResult := do
  let request := s.request o seed
  let optimizer := if request.optimize then some (s.searchSettings seed) else none
  let last ← Pipeline.Setting.run ⟨s.validator, optimizer, request⟩
  return {
    accepted := last.accepted
    rejected := last.rejected
    attempts := last.attempts
    requested := request.count
    records := last.accepted.map (Candidate.record s.catalog) }

end Session

/-- Where the configuration of a forge comes from. -/
inductive Origin where
  | config (c : Config)
  /-- A file, given or found. -/
  | file (path : Option String)

structure Forge where
  place : Place
  origin : Origin
  /-- The level of the logger. -/
  level : Log.Level
  session : Option Session := none

/-- A computation of a forge that may fail; what it did before stays done. -/
abbrev ForgeT (m : Type → Type) (α : Type) := ExceptT Failure (StateT Forge m) α

namespace Forge

/-- A forge that has not been started. -/
def new (place : Place) (origin : Origin) : Forge :=
  { place, origin
    level := match origin with
      | .config c => c.level
      | .file _ => .info }

variable {m : Type → Type} [Monad m] [Host m]

def onHost {α : Type} (x : m α) : ForgeT m α :=
  ExceptT.lift (StateT.lift x)

/-- Show the notes of a computation, and go on with its result. -/
def logged {α : Type} (x : Logged Failure α) : ForgeT m α := do
  onHost (Host.log (← get).level x.notes)
  ofExcept x.result
where
  ofExcept : Except Failure α → ForgeT m α
    | .ok a => return a
    | .error f => throw f

def configuration : ForgeT m Config := do
  let f ← get
  match f.origin with
  | .config c => return c
  | .file path =>
    match ← onHost (Config.load f.place path) with
    | .ok c => return c
    | .error fault => throw (.config fault)

/-- The catalog that a configuration names, or the bundled one. -/
def catalogAt (path : Option String) : ForgeT m Catalog := do
  let path := path.getD ""
  if path.isEmpty then return Catalog.Bundled.catalog
  else
    match ← onHost (Catalog.load path) with
    | .ok c => return c
    | .error fault => throw (.catalog fault)

def started : ForgeT m Session := do
  match (← get).session with
  | some s => return s
  | none => throw .notStarted

def start : ForgeT m Unit := do
  if (← get).session.isSome then throw .alreadyStarted
  let config ← configuration
  modify fun f => { f with level := config.level }
  let catalog ← catalogAt config.catalogPath
  logged (Logged.note .debug
    s!"Catalog loaded: {catalog.fields.length} fields, {catalog.operators.length} operators")
  modify fun f => { f with session := some (.ofCatalog config catalog) }

/-- The seed that is asked for; without one a random one. -/
def seedFor (s : Session) (o : Overrides) : ForgeT m Float :=
  match s.seed? o with
  | some seed => return seed
  | none => return Float.ofNat (← onHost Host.random)

def run (o : Overrides) : ForgeT m RunResult := do
  let s ← started
  logged (s.run o (← seedFor s o))

/-- Save records to a file named for the present time; gives its path. -/
def save (records : List Record) (dir : Option String) : ForgeT m String := do
  let s ← started
  let now ← onHost Host.now
  onHost (Store.save (← get).level (records.map Record.toJson) (dir.getD s.config.outputDir) now)

end Forge

end AlphaFoundry
