/-
# AlphaFoundry.Place -- where the library runs

What paths mean depends on the home directory and on the working directory.
-/
import AlphaFoundry.FilePath

namespace AlphaFoundry

set_option autoImplicit false

structure Place where
  cwd : String
  /-- The value of an environment variable. -/
  environment : String → Option String

namespace Place

/-- The home directory is the value of a variable. -/
def homeVariable : String := "HOME"

def home (p : Place) : String :=
  (p.environment homeVariable).getD "/"

/-- A path that begins with `~/` is meant from the home directory. -/
def expand (p : Place) (path : String) : String :=
  match path.toList with
  | '~' :: '/' :: rest => FilePath.join p.home (String.ofList rest)
  | _ => path

/-- The path in the working directory, unless it begins at the root. -/
def absolute (p : Place) (path : String) : String :=
  let expanded := p.expand path
  if FilePath.isAbsolute expanded then expanded else FilePath.resolve p.cwd expanded

end Place

end AlphaFoundry
