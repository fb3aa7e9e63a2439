/-
# AlphaFoundry.Text.Pattern -- patterns that a text may match

A pattern is matched at a spot of a text, from left to right.  Alternatives are tried in their
order, a repetition takes as many or as few pieces as it can, and a choice that leads nowhere is
taken back.  So the first match that this order finds is the match.  `run` gives a match to what is
to be done next, and takes it back if that fails.
-/
import AlphaFoundry.Text.Blank

namespace AlphaFoundry.Text

set_option autoImplicit false

inductive Pattern where
  /-- One character of a class. -/
  | one (isMember : Char → Bool)
  | seq (first second : Pattern)
  /-- The first pattern, or else the second. -/
  | alt (first second : Pattern)
  /-- Any number of times, as often as it can be.  Each time takes a character at least. -/
  | many (body : Pattern)
  /-- Any number of times, as seldom as it can be. -/
  | few (body : Pattern)
  /-- Nothing, or the pattern if it can be. -/
  | maybe (body : Pattern)
  | lineStart
  | lineEnd
  /-- Keep what the pattern takes, under a number. -/
  | part (number : Nat) (body : Pattern)

/-- A spot between two characters of a text, with the parts that a match has kept. -/
structure Spot where
  before : Option Char := none
  rest : List Char
  parts : List (Nat × List Char) := []

namespace Spot

/-- A part of a match; empty if it took none. -/
def part (s : Spot) (number : Nat) : List Char :=
  (s.parts.lookup number).getD []

/-- Pass over a character. -/
def next? (s : Spot) : Option (Char × Spot) :=
  match s.rest with
  | [] => none
  | c :: cs => some (c, { s with before := some c, rest := cs })

end Spot

namespace Pattern

variable {β : Type}

/-- A step that can be followed by something else. -/
abbrev Step (β : Type) := (Spot → Option β) → Spot → Option β

def greedy (step : Step β) (next : Spot → Option β) : Nat → Spot → Option β
  | 0, s => next s
  | n + 1, s => step (greedy step next n) s <|> next s

def reluctant (step : Step β) (next : Spot → Option β) : Nat → Spot → Option β
  | 0, s => next s
  | n + 1, s => next s <|> step (reluctant step next n) s

def run : Pattern → Step β
  | one isMember, next, s => s.next?.bind fun (c, after) => if isMember c then next after else none
  | seq first second, next, s => first.run (second.run next) s
  | alt first second, next, s => first.run next s <|> second.run next s
  | many body, next, s => greedy body.run next s.rest.length s
  | few body, next, s => reluctant body.run next s.rest.length s
  | maybe body, next, s => body.run next s <|> next s
  | lineStart, next, s => if s.before.all isLineEnd then next s else none
  | lineEnd, next, s => if s.rest.head?.all isLineEnd then next s else none
  | part number body, next, s =>
    let kept (after : Spot) : List Char := s.rest.take (s.rest.length - after.rest.length)
    body.run (fun after => next { after with parts := (number, kept after) :: after.parts }) s

/-! ## Patterns made of others -/

def all : List Pattern → Pattern
  | [] => many (one fun _ => false)
  | [p] => p
  | p :: ps => seq p (all ps)

/-- One character. -/
def char (c : Char) : Pattern :=
  one (· == c)

/-- The characters of a text, one after the other. -/
def word (s : String) : Pattern :=
  all (s.toList.map char)

def many1 (body : Pattern) : Pattern :=
  seq body (many body)

def few1 (body : Pattern) : Pattern :=
  seq body (few body)

/-! ## Matches in a text -/

/-- The matches from a spot on, each behind the one before it, as the spots behind them.  A match
takes a character at least; the fuel bounds their number. -/
def matchesFrom (p : Pattern) : Nat → Spot → List Spot
  | 0, _ => []
  | fuel + 1, s =>
    match p.run some s with
    | some after => after :: matchesFrom p fuel { after with parts := [] }
    | none =>
      match s.next? with
      | some (_, after) => matchesFrom p fuel after
      | none => []

def matchesIn (p : Pattern) (cs : List Char) : List Spot :=
  matchesFrom p (cs.length + 1) { rest := cs }

/-- The text with a part of each match in its place. -/
def replaceFrom (p : Pattern) (number : Nat) : Nat → Spot → List Char
  | 0, s => s.rest
  | fuel + 1, s =>
    match p.run some s with
    | some after => after.part number ++ replaceFrom p number fuel { after with parts := [] }
    | none =>
      match s.next? with
      | some (c, after) => c :: replaceFrom p number fuel after
      | none => []

def replaceIn (p : Pattern) (number : Nat) (cs : List Char) : List Char :=
  replaceFrom p number (cs.length + 1) { rest := cs }

end Pattern

end AlphaFoundry.Text
