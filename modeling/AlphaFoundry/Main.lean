/-
# AlphaFoundry.Main -- the command line on the real machine
-/
import AlphaFoundry.Command.Action
import Std.Time.DateTime.Timestamp

namespace AlphaFoundry

set_option autoImplicit false

/-- A file or a directory on the way to it is missing. -/
def isMissing : IO.Error → Bool
  | .noFileOrDirectory .. => true
  | .inappropriateType (some _) code _ => code == 20
  | _ => false

def presentMoment : IO Moment := do
  let ms := (← Std.Time.Timestamp.now).toMillisecondsSinceUnixEpoch.val
  return if h : ms.natAbs ≤ momentLimit then ⟨ms, h⟩ else .epoch

instance : Host IO where
  read path := do
    try
      return .text (← IO.FS.readFile path)
    catch e =>
      return if isMissing e then .absent else .unreadable (toString e)
  write dir path text := do
    IO.FS.createDirAll dir
    IO.FS.writeFile path text
  now := presentMoment
  random := IO.rand 0 2147483647
  say out := do
    match out.render (← presentMoment).iso with
    | (.standard, text) => IO.print text
    | (.error, text) => IO.eprint text

/-- The variables that the library asks for. -/
def askedFor : List String :=
  [Place.homeVariable, Config.pathVariable, Variables.pathSetting.name,
    Variables.overrideSetting.name]

/-- The place of this process, as far as the library asks for it. -/
def presentPlace : IO Place := do
  let values ← askedFor.mapM fun name => return (name, ← IO.getEnv name)
  return {
    cwd := toString (← IO.currentDir)
    environment := fun name => (values.lookup name).join }

end AlphaFoundry

def main (words : List String) : IO UInt32 := do
  return UInt32.ofNat (← AlphaFoundry.Command.run (← AlphaFoundry.presentPlace) words)
