/-
# AlphaFoundry.FilePath -- paths to files, as texts

A path is cut at its slashes.  Empty parts and `.` say nothing, and `..` takes back the part before
it; in front of a path that does not begin at the root it stays.
-/

namespace AlphaFoundry.FilePath

set_option autoImplicit false

/-- The parts between slashes. -/
def parts : List Char → List (List Char)
  | [] => [[]]
  | c :: cs =>
    if c == '/' then [] :: parts cs
    else
      match parts cs with
      | [] => [[c]]
      | p :: ps => (c :: p) :: ps

/-- Put a part behind those that are settled, the last on top. -/
def push (rooted : Bool) (settled : List (List Char)) (part : List Char) : List (List Char) :=
  if part == [] || part == ['.'] then settled
  else if part == ['.', '.'] then
    match settled with
    | top :: below => if top == ['.', '.'] then part :: settled else below
    | [] => if rooted then [] else [part]
  else part :: settled

def isRooted (cs : List Char) : Bool :=
  cs.head? == some '/'

/-- The parts that say something, the last first. -/
def settledParts (cs : List Char) : List (List Char) :=
  (parts cs).foldl (push (isRooted cs)) []

def settle (cs : List Char) : List Char :=
  ['/'].intercalate (settledParts cs).reverse

/-- The path without parts that say nothing.  A slash at the end stays, and a path of no parts is
the directory itself. -/
def normalize (cs : List Char) : List Char :=
  let body := settle cs
  if body.isEmpty then
    if isRooted cs then ['/'] else if cs.getLast? == some '/' then ['.', '/'] else ['.']
  else
    (if isRooted cs then ['/'] else []) ++ body
      ++ (if cs.getLast? == some '/' then ['/'] else [])

def isAbsolute (path : String) : Bool :=
  isRooted path.toList

/-- A path inside a directory. -/
def join (dir path : String) : String :=
  let given := [dir.toList, path.toList].filter fun p => !p.isEmpty
  String.ofList (normalize (['/'].intercalate given))

/-- The absolute path that a path means in a directory, without a slash at the end. -/
def resolve (cwd path : String) : String :=
  let cs := if isAbsolute path then path.toList else cwd.toList ++ '/' :: path.toList
  String.ofList ('/' :: settle cs)

end AlphaFoundry.FilePath
