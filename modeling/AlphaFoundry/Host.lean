/-
# AlphaFoundry.Host -- what the library asks of the machine it runs on

It reads files, writes files, tells the time, gives random bits and shows lines; everything else is
computed.  `Host.Desk` answers from values, the command line from the real machine.
-/
import AlphaFoundry.Calendar
import AlphaFoundry.Catalog.Document
import AlphaFoundry.Config

namespace AlphaFoundry

set_option autoImplicit false

/-- Something to be shown. -/
inductive Output where
  /-- A result. -/
  | result (text : String)
  /-- A line of the log. -/
  | log (line : Log.Line)
  /-- What is wrong with a command. -/
  | complaint (text : String)

inductive Stream where
  | standard
  | error
deriving Repr, DecidableEq

def Log.Level.stream : Log.Level → Stream
  | .debug | .info => .standard
  | .warn | .error => .error

/-- Where a line goes, and its text at a time. -/
def Output.render (time : String) : Output → Stream × String
  | result text => (.standard, text ++ "\n")
  | log (.note level message _) => (level.stream, Log.heading time level message ++ "\n")
  | log (.trace cause) => (.error, cause ++ "\n")
  | complaint text => (.error, text ++ "\n")

class Host (m : Type → Type) where
  read : (path : String) → m Source
  /-- Write a file, with the directory that it is in. -/
  write : (dir path text : String) → m Unit
  now : m Moment
  /-- A random number below 2 ^ 31. -/
  random : m Nat
  say : Output → m Unit

namespace Host

variable {m : Type → Type} [Monad m] [Host m]

def print (text : String) : m Unit :=
  say (.result text)

/-- Show the notes that a logger of a level shows. -/
def log (threshold : Log.Level) (notes : List Log.Note) : m Unit :=
  (Log.lines threshold notes).forM fun line => say (.log line)

end Host

variable {m : Type → Type} [Monad m] [Host m]

/-- The catalog of a file. -/
def Catalog.load (path : String) : m (Except Catalog.Fault Catalog) := do
  return Catalog.ofSource path (← Host.read path)

/-- The configuration of a file, given or found. -/
def Config.load (p : Place) (given : Option String) : m (Except Config.Fault Config) := do
  return Config.ofSource p given (← Host.read (Config.pathFor p given))

end AlphaFoundry
