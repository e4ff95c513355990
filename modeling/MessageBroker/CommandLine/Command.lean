/-! # Commands

The program's commands, and what it says about them. -/

namespace MessageBroker.CommandLine

/-- The program itself and its commands. -/
inductive Command
  | program
  | migrate
  | server
  | help
  deriving DecidableEq

namespace Command

/-- The commands of the program, with their names. The first name of a command is the one shown. -/
def names : List (String × Command) :=
  [("migrate", migrate), ("m", migrate), ("server", server), ("s", server), ("help", help)]

/-- The command of a name, within a command. -/
def find? (within : Command) (name : String) : Option Command :=
  if within = program then (names.find? (·.1 = name)).map (·.2) else none

/-- What a command does. -/
def about : Command → String
  | program => "SQL-backed message queue and pub/sub broker"
  | migrate => "Create the database if needed and apply pending migrations"
  | server => "Run the HTTP server"
  | help => "Print this message or the help of the given subcommand(s)"

/-- How a command is called. -/
def path : Command → String
  | program => "rowmq"
  | migrate => "rowmq migrate"
  | server => "rowmq server"
  | help => "rowmq help"

/-- What follows the flags of a command. -/
def operands : Command → String
  | program => " <COMMAND>"
  | help => " [COMMAND]..."
  | _ => ""

/-- The line that shows how a command is called, with a flag if one is given. -/
def usage (c : Command) (flag : Option String) : String :=
  "Usage: " ++ c.path ++ (match flag with
    | none => ""
    | some flag => " --" ++ flag) ++ c.operands

/-- The long names of a command's flags. -/
def flags : Command → List String
  | program => ["help", "version"]
  | help => []
  | _ => ["help"]

/-- The long name of a flag of one letter. -/
def flagOfLetter? (c : Command) (letter : Char) : Option String :=
  if letter = 'h' ∧ "help" ∈ c.flags then some "help"
  else if letter = 'V' ∧ "version" ∈ c.flags then some "version"
  else none

/-- The lines on a command's parts. -/
def parts : Command → String
  | program => "Commands:
  migrate  Create the database if needed and apply pending migrations
  server   Run the HTTP server
  help     Print this message or the help of the given subcommand(s)

Options:
  -h, --help     Print help
  -V, --version  Print version
"
  | help => "Arguments:
  [COMMAND]...  Print help for the subcommand(s)
"
  | _ => "Options:
  -h, --help  Print help
"

/-- The description of a command. -/
def helpText (c : Command) : String :=
  c.about ++ "\n\n" ++ c.usage none ++ "\n\n" ++ c.parts

end Command

/-- The line that names the program's version. -/
def versionText : String := "rowmq 0.1.0-alpha.1\n"

end MessageBroker.CommandLine
