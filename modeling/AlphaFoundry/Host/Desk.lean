/-
# AlphaFoundry.Host.Desk -- a host of values

Files are texts under absolute paths; the time stands still.  What was shown is kept.
-/
import AlphaFoundry.Host

namespace AlphaFoundry.Host

set_option autoImplicit false

structure Desk where
  cwd : String := "/"
  files : List (String × String) := []
  time : Moment := .epoch
  random : Nat := 0
  /-- What was shown, the latest first. -/
  shown : List Output := []

namespace Desk

/-- A path below the root from its parts, the last first. -/
def pathOf (parts : List (List Char)) : String :=
  String.ofList ('/' :: ['/'].intercalate parts.reverse)

/-- A directory is the root, the working directory or one above it, or holds a file. -/
def isDirectory (d : Desk) (path : String) : Bool :=
  let inside := (path ++ "/").toList
  path == "/" || path == d.cwd || inside.isPrefixOf d.cwd.toList
    || d.files.any fun f => inside.isPrefixOf f.1.toList

/-- Go along the parts of a path, from a directory.  Every part but the last leads into a
directory, `..` out of one. -/
def walk (d : Desk) (here : List (List Char)) : List (List Char) → Source
  | [] => .unreadable "it is a directory"
  | part :: rest =>
    if part == [] || part == ['.'] then d.walk here rest
    else if part == ['.', '.'] then d.walk here.tail rest
    else
      let path := pathOf (part :: here)
      match d.files.lookup path with
      | some text => if rest.isEmpty then .text text else .absent
      | none => if d.isDirectory path then d.walk (part :: here) rest else .absent

def find (d : Desk) (path : String) : Source :=
  if path.isEmpty then .absent
  else
    let start := if FilePath.isAbsolute path then [] else FilePath.settledParts d.cwd.toList
    d.walk start (FilePath.parts path.toList)

/-- Put a file under a path, in place of one that is there. -/
def put (d : Desk) (path text : String) : Desk :=
  let absolute := FilePath.resolve d.cwd path
  { d with files := (absolute, text) :: d.files.filter fun f => f.1 != absolute }

/-- What was shown, from the first on. -/
def output (d : Desk) : List Output :=
  d.shown.reverse

end Desk

instance : Host (StateM Desk) where
  read path := do return (← get).find path
  write _ path text := modify fun d => d.put path text
  now := do return (← get).time
  random := do return (← get).random
  say out := modify fun d => { d with shown := out :: d.shown }

end AlphaFoundry.Host
