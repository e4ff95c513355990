import MessageBroker.CommandLine.Arguments
import MessageBroker.Database.Directory
import MessageBroker.SocketAddress

/-! # Running the program

What the program prints, how it ends, and what it leaves in its working directory. -/

namespace MessageBroker.CommandLine

/-- The end of a run of the program. -/
structure Outcome where
  exitCode : Nat
  output : String
  errors : String
  directory : Directory

/-- A report with the causes below it, the immediate one first. -/
def report (message : String) (causes : List String) : String :=
  "Error: " ++ message ++
    match causes with
    | [] => ""
    | [cause] => "\n\nCaused by:\n    " ++ cause
    | causes =>
      "\n\nCaused by:" ++ String.join
        (causes.zipIdx.map fun (cause, n) => "\n   " ++ Text.Decimal.ofInt n ++ ": " ++ cause)

/-- What caused a failure to open a database. -/
def causes : OpenFailure → List String
  | .noDirectory =>
    ["error returned from database: (code: 14) unable to open database file",
      "(code: 14) unable to open database file"]
  | .noDatabase =>
    ["error returned from database: (code: 26) file is not a database",
      "(code: 26) file is not a database"]
  | .noConnection => ["pool timed out while waiting for an open connection"]
  | .migration => []

/-- The end of a run that fails. -/
def failed (d : Directory) (text : String) : Outcome := ⟨1, "", text, d⟩

/-- The end of a run that opens and closes the database. -/
def useDatabase (d : Directory) (c : Config) : Outcome :=
  match d.withDatabase c fun db => ((), db) with
  | (.error f, d) => failed d (report f.error.message (causes f))
  | (.ok (), d) => ⟨0, "", "", d⟩

/-- The end of a run of a command with settings. The server ends as soon as it is told to. -/
def runWith (d : Directory) (config : Config) : Command → Outcome
  | .server =>
    if SocketAddress.isValid
        (config.metricsHost ++ ":" ++ Text.Decimal.ofInt config.metricsPort.toNat) then
      useDatabase d config
    else failed d (report SocketAddress.problem [])
  | _ => useDatabase d config

/-- The end of a run of the program, with the directories that it can write to besides its own, its
arguments and environment, and an environment file, if there is one in its directory. -/
def run (folders arguments : List String) (env : Environment) (file : Option String) : Outcome :=
  let d := Directory.ofFiles folders (file.map fun text => (".env", Text.bytes text)).toList
  match read false arguments with
  | .help c => ⟨0, c.helpText, "", d⟩
  | .version => ⟨0, versionText, "", d⟩
  | .nothing => ⟨2, "", Command.program.helpText, d⟩
  | .invalid c p => ⟨2, "", p.message c, d⟩
  | .run c =>
    match Config.load env file with
    | .error p => failed d (report p.message [])
    | .ok config => runWith d config c

end MessageBroker.CommandLine
