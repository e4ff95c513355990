import MessageBroker.CommandLine.Run

/-! # The program -/

namespace MessageBroker.Main

/-- The names of the variables that the program looks at. -/
def variableNames : List String :=
  Config.settings.map fun setting =>
    String.ofList (Config.stem ++ setting.name.toList.map Char.toUpper)

/-- The directories in which files can be made, besides the working directory. -/
def folders : List String := ["/", "/tmp/"]

/-- The variables that are set. -/
def environment : IO Environment :=
  variableNames.filterMapM fun name => do return (← IO.getEnv name).map fun value => (name, value)

/-- The environment file, if there is one. -/
def environmentFile : IO (Option String) := do
  try return some (← IO.FS.readFile ".env")
  catch _ => return none

end MessageBroker.Main

/-- Runs the program. -/
def main (arguments : List String) : IO UInt32 := do
  let environment ← MessageBroker.Main.environment
  let file ← MessageBroker.Main.environmentFile
  let outcome :=
    MessageBroker.CommandLine.run MessageBroker.Main.folders arguments environment file
  IO.print outcome.output
  IO.eprint outcome.errors
  return UInt32.ofNat outcome.exitCode
