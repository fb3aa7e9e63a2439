/-
# AlphaFoundry.Command.Usage -- help about the commands
-/
import AlphaFoundry.Command
import AlphaFoundry.Text.Units

namespace AlphaFoundry

set_option autoImplicit false

namespace Usage

/-- Terms with what they mean, in two columns. -/
def table (rows : List (String × String)) : List String :=
  let width := (rows.map fun r => r.1.length).foldl max 0
  rows.map fun r => "  " ++ Text.padRight (width + 2) r.1 ++ r.2

def titled (title : String) (rows : List (String × String)) : List (List String) :=
  if rows.isEmpty then [] else [(title ++ ":") :: table rows]

def helpRow : String × String := ("-h, --help", "display help for command")

def optionRows {α : Type} (flags : List (Flag α)) : List (String × String) :=
  flags.map (fun f => (f.usage, f.about)) ++ [helpRow]

/-- The parts of a help text, with an empty line between them. -/
def page (usage about : String) (arguments options commands : List (String × String)) : String :=
  "\n\n".intercalate <|
    (["Usage: alpha-forge " ++ usage] :: [about] :: (titled "Arguments" arguments
      ++ titled "Options" options ++ titled "Commands" commands)).map ("\n".intercalate ·)

def helpCommand : String × String := ("help [command]", "display help for command")

/-- The help about a command. -/
def text : List String → String
  | ["generate"] =>
    page "generate [options]" "Generate alpha expressions and save the accepted ones" []
      (optionRows Command.generateFlags) []
  | ["show"] =>
    page "show [options] <file>" "Display a saved alpha file" [] (optionRows Command.displayFlags)
      []
  | ["catalog", "fields"] =>
    page "catalog fields [options]" "List data fields" [] (optionRows Command.fieldFlags) []
  | ["catalog", "operators"] =>
    page "catalog operators [options]" "List operators" [] (optionRows Command.operatorFlags) []
  | ["catalog"] =>
    page "catalog [options] [command]" "Inspect the field and operator catalog" [] [helpRow]
      [("fields [options]", "List data fields"), ("operators [options]", "List operators"),
        helpCommand]
  | _ =>
    page "[options] [command]" "Generate, validate and optimize alpha expressions" []
      (optionRows [Command.versionFlag])
      [("generate [options]", "Generate alpha expressions and save the accepted ones"),
        ("show [options] <file>", "Display a saved alpha file"),
        ("catalog", "Inspect the field and operator catalog"), helpCommand]

end Usage

end AlphaFoundry
