/-
# AlphaFoundry.Arguments -- the words of a command line

An option is written `-s` or `--long`, and its value, if it takes one, is the next word, or stands
behind the short name, or behind `=`.  Short options without values may share a dash.  From the
first unknown option on, words that are no options are left to the command below.  Behind `--` no
word is an option.
-/
import AlphaFoundry.Suggestion

namespace AlphaFoundry

set_option autoImplicit false

/-- Why there is nothing to do, or nothing can be done. -/
inductive Stop where
  | version
  /-- Help was asked for about a command. -/
  | help (command : List String)
  /-- A command is missing below this one. -/
  | incomplete (command : List String)
  | refused (message : String)
deriving Repr, DecidableEq

/-- An option, and what it does to the settings of its command. -/
structure Flag (α : Type) where
  short : Option Char := none
  long : String
  /-- How the value is called, if there is one. -/
  value : Option String := none
  about : String
  /-- Take the value, or the empty text; or say what is wrong with it. -/
  set : String → α → Except String α
  /-- An option that leaves nothing else to do. -/
  stop : Option Stop := none

namespace Flag

variable {α : Type}

/-- The option as messages show it. -/
def usage (f : Flag α) : String :=
  String.join (f.short.toList.map fun c => "-" ++ c.toString ++ ", ") ++ "--" ++ f.long
    ++ String.join (f.value.toList.map fun v => " <" ++ v ++ ">")

def isNamed (f : Flag α) (word : String) : Bool :=
  word == "--" ++ f.long || f.short.any fun c => word == "-" ++ c.toString

def missingValue (f : Flag α) : Stop :=
  .refused s!"error: option '{f.usage}' argument missing"

/-- Apply an option to the settings. -/
def apply (f : Flag α) (value : String) (settings : α) : Except Stop α :=
  match f.stop with
  | some stop => .error stop
  | none =>
    (f.set value settings).mapError fun reason =>
      .refused s!"error: option '{f.usage}' argument '{value}' is invalid. {reason}"

end Flag

namespace Arguments

def isOption (word : String) : Bool :=
  1 < word.length && word.startsWith "-"

/-- What was found among the words of a command. -/
structure Found (α : Type) where
  settings : α
  operands : List String := []
  /-- The first option that is not known, and the words behind it that were not used. -/
  unknown : List String := []

namespace Found

variable {α : Type}

/-- A word that is no option of this command. -/
def leave (f : Found α) (word : String) : Found α :=
  if isOption word || !f.unknown.isEmpty then { f with unknown := f.unknown ++ [word] }
  else { f with operands := f.operands ++ [word] }

/-- The words behind `--`. -/
def leaveAll (f : Found α) (words : List String) : Found α :=
  if f.unknown.isEmpty then { f with operands := f.operands ++ words }
  else { f with unknown := f.unknown ++ "--" :: words }

end Found

/-- The parts of a word around its first `=`. -/
def splitValue (word : String) : Option (String × String) :=
  let name := word.toList.takeWhile (· != '=')
  match word.toList.dropWhile (· != '=') with
  | _ :: value =>
    if name.length > 2 && word.startsWith "--" then
      some (String.ofList name, String.ofList value)
    else none
  | [] => none

/-- Several short names behind one dash: the first one and the rest. -/
def splitShort (word : String) : Option (String × String) :=
  match word.toList with
  | '-' :: c :: d :: rest =>
    if c == '-' then none else some (String.ofList ['-', c], String.ofList (d :: rest))
  | _ => none

variable {α : Type} (flags : List (Flag α))

def flag? (word : String) : Option (Flag α) :=
  flags.find? fun f => f.isNamed word

/-- What a word is, if it is an option of this command: the option, and the value or the further
short options that the word holds. -/
inductive Reading (α : Type) where
  | alone (f : Flag α)
  | withValue (f : Flag α) (value : String)
  /-- An option without value, and a word for those behind it. -/
  | first (f : Flag α) (others : String)

def readShort (word : String) : Option (Reading α) := do
  let (name, rest) ← splitShort word
  let f ← flag? flags name
  return if f.value.isSome then .withValue f rest else .first f ("-" ++ rest)

def readLong (word : String) : Option (Reading α) := do
  let (name, value) ← splitValue word
  let f ← flag? flags name
  if f.value.isSome then return .withValue f value else none

def reading? (word : String) : Option (Reading α) :=
  if isOption word then
    match flag? flags word with
    | some f => some (.alone f)
    | none => readShort flags word <|> readLong flags word
  else none

/-- Go through the words.  Each step takes a character at least, which bounds the fuel. -/
def scanFrom : Nat → Found α → List String → Except Stop (Found α)
  | 0, found, _ => .ok found
  | _, found, [] => .ok found
  | fuel + 1, found, word :: words =>
    if word == "--" then .ok (found.leaveAll words)
    else
      match reading? flags word with
      | some (.alone f) =>
        match f.value, words with
        | none, _ => do scanFrom fuel { found with settings := ← f.apply "" found.settings } words
        | some _, value :: words => do
          scanFrom fuel { found with settings := ← f.apply value found.settings } words
        | some _, [] => .error f.missingValue
      | some (.withValue f value) => do
        scanFrom fuel { found with settings := ← f.apply value found.settings } words
      | some (.first f others) => do
        scanFrom fuel { found with settings := ← f.apply "" found.settings } (others :: words)
      | none => scanFrom fuel (found.leave word) words

def scan (settings : α) (words : List String) : Except Stop (Found α) :=
  scanFrom flags (words.foldl (fun n w => n + w.length + 1) 1) { settings } words

/-! ## Commands -/

def asksForHelp (words : List String) : Bool :=
  words.any fun w => w == "-h" || w == "--help"

/-- Options that every command has, by their long names. -/
def commonNames : List String := ["version", "help"]

def unknownOption (names : List String) (word : String) : Stop :=
  .refused (s!"error: unknown option '{word}'" ++ Suggestion.forOption word (names ++ commonNames))

def unknownCommand (names : List String) (word : String) : Stop :=
  .refused (s!"error: unknown command '{word}'" ++ Suggestion.forCommand word (names ++ ["help"]))

def missingOperand (name : String) : Stop :=
  .refused s!"error: missing required argument '{name}'"

/-- The settings and operands of a command that has no commands below it.  It needs the operands
that are named. -/
def leaf (command : List String) (named : List String) (settings : α)
    (operands unknown : List String) : Except Stop (α × List String) := do
  let found ← scan flags settings unknown
  let operands := operands ++ found.operands
  if asksForHelp found.unknown then throw (.help command)
  match found.unknown, named.drop operands.length with
  | word :: _, _ => throw (unknownOption (flags.map Flag.long) word)
  | [], name :: _ => throw (missingOperand name)
  | [], [] => return (found.settings, operands)

/-- A command that only has commands below it: what is found for them, or why there is none. -/
def branch {β : Type} (flags : List (Flag Unit)) (command names : List String)
    (below : String → Option β) (operands unknown : List String) :
    Except Stop (β × List String × List String) := do
  let found ← scan flags () unknown
  match operands ++ found.operands, found.unknown with
  | name :: rest, unknown =>
    match below name with
    | some next => return (next, rest, unknown)
    | none =>
      if name == "help" || asksForHelp unknown then throw (.help command)
      else throw (unknownCommand names name)
  | [], [] => throw (.incomplete command)
  | [], word :: words =>
    if asksForHelp (word :: words) then throw (.help command) else throw (unknownOption [] word)

end Arguments

end AlphaFoundry
