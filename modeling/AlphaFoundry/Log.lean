/-
# AlphaFoundry.Log -- what the library tells while it works

Computations note what they do; a logger shows the notes at or above its level.  `Logged` pairs the
notes with the result, and keeps those made before a failure.
-/
import AlphaFoundry.Json.Value
import AlphaFoundry.Text.Units

namespace AlphaFoundry

set_option autoImplicit false

namespace Log

inductive Level where
  | debug
  | info
  | warn
  | error
deriving Repr, DecidableEq

namespace Level

def name : Level → String
  | debug => "debug"
  | info => "info"
  | warn => "warn"
  | error => "error"

def all : List Level := [debug, info, warn, error]

def ofName? (s : String) : Option Level :=
  all.find? fun l => l.name == s

def rank : Level → Nat
  | debug => 0
  | info => 1
  | warn => 2
  | error => 3

/-- A logger at level `threshold` shows notes of this level. -/
def isShownAt (l threshold : Level) : Bool :=
  threshold.rank ≤ l.rank

end Level

structure Note where
  level : Level
  message : String
  /-- Values shown behind the message. -/
  extras : List Json := []
  /-- What failed; it is shown with the message, and traced at level debug. -/
  cause : Option String := none

inductive Line where
  | note (level : Level) (message : String) (extras : List Json)
  /-- Where a cause came from. -/
  | trace (cause : String)

/-- The lines that a logger writes for a note. -/
def Note.lines (threshold : Level) (n : Note) : List Line :=
  if n.level.isShownAt threshold then
    match n.cause with
    | none => [.note n.level n.message n.extras]
    | some cause =>
      .note n.level (n.message ++ ": " ++ cause) n.extras
        :: (if threshold = .debug then [.trace cause] else [])
  else []

def lines (threshold : Level) (notes : List Note) : List Line :=
  notes.flatMap (·.lines threshold)

/-- A message behind the time and the level. -/
def heading (time : String) (level : Level) (message : String) : String :=
  "[" ++ time ++ "] " ++ Text.padRight 5 level.name.toUpper ++ " " ++ message

end Log

/-- A result with the notes made on the way to it. -/
structure Logged (ε α : Type) where
  notes : List Log.Note
  result : Except ε α

namespace Logged

variable {ε α β : Type}

protected def pure (a : α) : Logged ε α := ⟨[], .ok a⟩

protected def bind (x : Logged ε α) (f : α → Logged ε β) : Logged ε β :=
  match x.result with
  | .ok a => ⟨x.notes ++ (f a).notes, (f a).result⟩
  | .error e => ⟨x.notes, .error e⟩

instance : Monad (Logged ε) where
  pure := Logged.pure
  bind := Logged.bind

def fail (e : ε) : Logged ε α := ⟨[], .error e⟩

def ofExcept (r : Except ε α) : Logged ε α := ⟨[], r⟩

def note (level : Log.Level) (message : String) : Logged ε Unit :=
  ⟨[{ level, message }], .ok ()⟩

def mapError {ε' : Type} (f : ε → ε') (x : Logged ε α) : Logged ε' α :=
  ⟨x.notes, x.result.mapError f⟩

end Logged

end AlphaFoundry
