/-
# AlphaFoundry.Store -- records in files

A run is saved to a file of its own, named for the second at which it ended.  A file that is missing
or malformed is noted, and holds no records.
-/
import AlphaFoundry.Host
import AlphaFoundry.Json.Printer
import AlphaFoundry.Record

namespace AlphaFoundry

set_option autoImplicit false

namespace Store

/-- Date and time in the name of a file; a time out of range has none. -/
def stamp : Option Moment → String
  | some t => t.dateDigits ++ "_" ++ t.clock ""
  | none => "NaNNaNNaN_NaNNaNNaN"

def fileName (t : Option Moment) : String :=
  "alphas_" ++ stamp t ++ ".json"

def fileText (documents : List Json) : String :=
  (Json.arr documents).pretty ++ "\n"

/-- The records that a text holds; nothing if it is no JSON at all. -/
def read? (text : String) : Option (Except (List Schema.Issue) (List Record)) :=
  (Json.read? text).map (Schema.read (Schema.list Record.form))

/-- The records found at a path, noting how many there are or why there are none. -/
def ofSource {ε : Type} (path : String) (source : Source) : Logged ε (List Record) :=
  match source with
  | .absent => nothing { level := .error, message := s!"File not found: {path}" }
  | .unreadable reason => unreadable reason
  | .text s =>
    match read? s with
    | none => unreadable Source.nonsense
    | some (.error issues) =>
      nothing
        { level := .error
          message := s!"Malformed alpha file {path}: "
            ++ "; ".intercalate (issues.map Schema.Issue.text) }
    | some (.ok records) =>
      ⟨[{ level := .info, message := s!"Loaded {records.length} alphas from {path}" }],
        .ok records⟩
where
  nothing (n : Log.Note) : Logged ε (List Record) := ⟨[n], .ok []⟩
  unreadable (reason : String) : Logged ε (List Record) :=
    nothing
      { level := .error, message := s!"Error loading alphas from {path}", cause := some reason }

variable {m : Type → Type} [Monad m] [Host m]

/-- Save documents to a new file in a directory; gives its path. -/
def save (threshold : Log.Level) (documents : List Json) (dir : String) (t : Option Moment) :
    m String := do
  let path := FilePath.join dir (fileName t)
  Host.write dir path (fileText documents)
  Host.log threshold
    [{ level := .info, message := s!"Saved {documents.length} alphas to {path}" }]
  return path

def load (threshold : Log.Level) (path : String) : m (List Record) := do
  let found : Logged Empty (List Record) := ofSource path (← Host.read path)
  Host.log threshold found.notes
  match found.result with
  | .ok records => return records
  | .error e => nomatch e

end Store

end AlphaFoundry
