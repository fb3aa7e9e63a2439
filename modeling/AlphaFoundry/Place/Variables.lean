/-
# AlphaFoundry.Place.Variables -- environment variables from a file

A line `NAME=value` sets a variable, and so does `NAME: value`.  A value may stand between quotes,
over several lines; without them it ends at a `#`.  Lines of any other form are passed over.

The file is `.env` in the working directory, and variables that are set already stay.  The
environment, and words of the command line, may say otherwise.
-/
import AlphaFoundry.Place
import AlphaFoundry.Source
import AlphaFoundry.Text.Pattern

namespace AlphaFoundry

set_option autoImplicit false

namespace Variables

/-! ## Assignments in a text -/

open Text (Pattern)
open Text.Pattern

def isNameChar (c : Char) : Bool :=
  Text.isWord c || c == '.' || c == '-'

def blank : Pattern :=
  one Text.isBlank

def quotes : List Char := ['\'', '"', '\x60']

/-- A value between quotes, behind blanks; a quote behind a backslash need not close it. -/
def quoted (quote : Char) : Pattern :=
  all [many blank, char quote,
    many (alt (seq (char '\\') (char quote)) (one (· != quote))), char quote]

/-- A value without quotes. -/
def bare : Pattern :=
  many1 (one fun c => c != '#' && c != '\n' && c != '\r')

/-- The sign between a name and its value. -/
def sign : Pattern :=
  alt (all [many blank, char '=', few blank]) (seq (char ':') (few1 blank))

/-- An assignment: the name is part 1 and the value, as it is written, part 2. -/
def assignment : Pattern :=
  all [lineStart, many blank, maybe (seq (word "export") (many1 blank)),
    part 1 (many1 (one isNameChar)), sign,
    maybe (part 2 (quotes.foldr (fun q others => alt (quoted q) others) bare)),
    many blank, maybe (seq (char '#') (many (one fun c => !Text.isLineEnd c))), lineEnd]

/-- Quotes around whole lines; what they hold is part 1. -/
def surrounded : Pattern :=
  let between (quote : Char) : Pattern :=
    all [lineStart, char quote, part 1 (many (one fun _ => true)), char quote, lineEnd]
  quotes.foldr (fun q others => alt (between q) others) (one fun _ => false)

/-- Line breaks are written with a backslash between double quotes. -/
def unescape : List Char → List Char
  | '\\' :: 'n' :: cs => '\n' :: unescape cs
  | '\\' :: 'r' :: cs => '\r' :: unescape cs
  | c :: cs => c :: unescape cs
  | [] => []

/-- The value without the quotes around it. -/
def value (written : List Char) : String :=
  let text := Text.trim written
  let inner := surrounded.replaceIn 1 text
  String.ofList (if text.head? == some '"' then unescape inner else inner)

/-- Line breaks in one form. -/
def lineFeeds : List Char → List Char
  | '\r' :: '\n' :: cs => '\n' :: lineFeeds cs
  | '\r' :: cs => '\n' :: lineFeeds cs
  | c :: cs => c :: lineFeeds cs
  | [] => []

/-- The assignments of a text, from the first on. -/
def assignments (text : String) : List (String × String) :=
  (assignment.matchesIn (lineFeeds text.toList)).map fun found =>
    (String.ofList (found.part 1), value (found.part 2))

/-- The value that a text gives to a variable, the last if there are several. -/
def lookup (text name : String) : Option String :=
  (assignments text).reverse.lookup name

/-! ## The file -/

/-- Where a setting about the file comes from: a variable, or a word of the command line, which
wins. -/
structure Setting where
  name : String
  word : String

def pathSetting : Setting := ⟨"DOTENV_CONFIG_PATH", "dotenv_config_path="⟩

def overrideSetting : Setting := ⟨"DOTENV_CONFIG_OVERRIDE", "dotenv_config_override="⟩

/-- What a word gives to a setting: text on one line. -/
def Setting.inWord? (s : Setting) (word : String) : Option String :=
  let given := word.toList.drop s.word.length
  if word.startsWith s.word && !given.isEmpty && !given.any Text.isLineEnd then
    some (String.ofList given)
  else none

/-- The value of a setting; an empty one says nothing. -/
def Setting.value? (s : Setting) (p : Place) (words : List String) : Option String :=
  let given := words.reverse.findSome? s.inWord? <|> p.environment s.name
  given.filter fun text => !text.isEmpty

/-- The path of the file.  A path that begins with `~` is meant from the home directory. -/
def path (p : Place) (words : List String) : String :=
  match pathSetting.value? p words with
  | none => ".env"
  | some given =>
    match given.toList with
    | '~' :: rest => FilePath.join p.home (String.ofList rest)
    | _ => given

end Variables

/-- The place with the variables of a file. -/
def Place.withVariables (p : Place) (words : List String) : Source → Place
  | .text s =>
    let wins := (Variables.overrideSetting.value? p words).isSome
    { p with
      environment := fun name =>
        if wins then Variables.lookup s name <|> p.environment name
        else p.environment name <|> Variables.lookup s name }
  | _ => p

end AlphaFoundry
