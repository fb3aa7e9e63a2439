/-
# AlphaFoundry.Suggestion -- names that a misspelled word may have meant

Two words are as far apart as the fewest insertions, deletions, replacements and swaps of neighbours
that make one the other, where no letter is touched twice.  Letters are 16-bit units.
-/
import AlphaFoundry.Text.Units

namespace AlphaFoundry.Suggestion

set_option autoImplicit false

/-- One row of distances: from the prefixes of one word that end in `c` to the prefixes of the
other, `target`.  `prev` is the row of the prefix before and `older` the one before that; `left` is
the distance found last, and the letters before `c` and before the rest of `target` tell swaps. -/
def rowFrom (c : Nat) (before : Option Nat) : (left : Nat) → Option Nat → List Nat →
    (prev older : List Nat) → List Nat
  | left, last, d :: target, diagonal :: up :: prev, older =>
    let replaced := diagonal + if c == d then 0 else 1
    let edited := min (min (up + 1) (left + 1)) replaced
    let swapped :=
      match older with
      | twoBack :: _ => if before == some d && last == some c then twoBack + 1 else edited
      | [] => edited
    let here := min edited swapped
    here :: rowFrom c before here (some d) target (up :: prev)
      (if last.isSome then older.drop 1 else older)
  | _, _, _, _, _ => []

/-- The rows for the letters of a word, one after the other; the last one is left. -/
def rows (target : List Nat) : List Nat → Option Nat → Nat → (prev older : List Nat) → List Nat
  | [], _, _, prev, _ => prev
  | c :: word, before, i, prev, older =>
    let row := i :: rowFrom c before i none target prev older
    rows target word (some c) (i + 1) row prev

def distance (word target : String) : Nat :=
  let start := List.range (Text.width target + 1)
  (rows (Text.units target.toList) (Text.units word.toList) none 1 start []).getLastD 0

/-- Words further apart than this are not alike. -/
def farthest : Nat := 3

/-- More than two fifths of the longer word are kept. -/
def isAlike (word target : String) : Bool :=
  let longer := max (Text.width word) (Text.width target)
  let apart := distance word target
  apart ≤ farthest && 2 * longer < 5 * (longer - apart)

/-- The names nearest to a word, of those that are alike; a name of one letter is never guessed. -/
def nearestTo (word : String) (names : List String) : List String :=
  let alike := names.filter fun n => 1 < Text.width n && isAlike word n
  let least := (alike.map (distance word)).foldl min farthest
  (alike.filter fun n => distance word n == least).mergeSort fun a b => a ≤ b

/-- What follows a message about an unknown word. -/
def hint (names : List String) : String :=
  match names with
  | [] => ""
  | [n] => s!"\n(Did you mean {n}?)"
  | names => "\n(Did you mean one of " ++ ", ".intercalate names ++ "?)"

/-- The names nearest to a word.  A word that begins with two dashes is compared without them, and
the names are taken to begin with two letters that do not count either. -/
def nearest (word : String) (names : List String) : List String :=
  match word.toList with
  | '-' :: '-' :: name =>
    let inner := names.eraseDups.map fun n => String.ofList (n.toList.drop 2)
    (nearestTo (String.ofList name) inner).map ("--" ++ ·)
  | _ => nearestTo word names.eraseDups

/-- Nothing is guessed for an option of one letter. -/
def forOption (word : String) (long : List String) : String :=
  if word.startsWith "--" then hint (nearest word (long.map ("--" ++ ·))) else ""

def forCommand (word : String) (names : List String) : String :=
  hint (nearest word names)

end AlphaFoundry.Suggestion
