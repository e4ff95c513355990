import MessageBroker.CommandLine.Command
import MessageBroker.Text.Similarity

/-! # Arguments

What the arguments of the program ask for. They are read from left to right, and the first that is a
flag or is not understood decides. After `--` no argument is a flag or command. -/

namespace MessageBroker.CommandLine

/-- Why an argument is not understood. -/
inductive Problem
  | unknownCommand (argument : String) (similar : List String)
  | unknownFlag (argument : String) (similar : Option String)
  /-- A command after `--`. -/
  | needlessDashes (argument : String)
  | valueOfFlag (value flag : String)
  deriving DecidableEq

/-- What arguments ask for. -/
inductive Request
  | run (c : Command)
  | help (c : Command)
  | version
  /-- There is no command. -/
  | nothing
  /-- An argument of a command is not understood. -/
  | invalid (c : Command) (p : Problem)
  deriving DecidableEq

namespace Problem

/-- What is wrong. -/
def statement : Problem → String
  | unknownCommand argument _ => "unrecognized subcommand '" ++ argument ++ "'"
  | unknownFlag argument _ | needlessDashes argument =>
    "unexpected argument '" ++ argument ++ "' found"
  | valueOfFlag value flag =>
    "unexpected value '" ++ value ++ "' for '--" ++ flag ++ "' found; no more were expected"

/-- What could have been meant. -/
def tip? : Problem → Option String
  | unknownCommand _ [] => none
  | unknownCommand _ [name] => some ("a similar subcommand exists: '" ++ name ++ "'")
  | unknownCommand _ names =>
    some ("some similar subcommands exist: "
      ++ ", ".intercalate (names.map fun name => "'" ++ name ++ "'"))
  | unknownFlag _ similar => similar.map fun flag => "a similar argument exists: '--" ++ flag ++ "'"
  | needlessDashes argument =>
    some ("subcommand '" ++ argument ++ "' exists; to use it, remove the '--' before it")
  | valueOfFlag .. => none

/-- The flag that the usage shows. -/
def shownFlag? : Problem → Option String
  | unknownFlag _ similar => similar
  | _ => none

/-- The wording of a problem with an argument of a command. -/
def message (p : Problem) (c : Command) : String :=
  "error: " ++ p.statement
    ++ (match p.tip? with
      | none => ""
      | some tip => "\n\n  tip: " ++ tip)
    ++ "\n\n" ++ c.usage p.shownFlag?
    ++ (if "help" ∈ c.flags then "\n\nFor more information, try '--help'.\n" else "\n")

end Problem

/-- What a flag asks for. -/
def Request.ofFlag (c : Command) (flag : String) : Request :=
  if flag = "version" then .version else .help c

/-- What an argument that begins with two dashes, and goes on as given, asks for. -/
def readLongFlag (c : Command) (l : List Char) : Request :=
  let name := String.ofList (l.takeWhile (· ≠ '='))
  let rest := l.dropWhile (· ≠ '=')
  if name ∈ c.flags then
    match rest with
    | [] => .ofFlag c name
    | _ :: value => .invalid c (.valueOfFlag (String.ofList value) name)
  else .invalid c (.unknownFlag ("--" ++ name) (Text.similarWords name c.flags).getLast?)

/-- What an argument that begins with a dash and a letter asks for. -/
def readShortFlag (c : Command) (letter : Char) : Request :=
  match c.flagOfLetter? letter with
  | some flag => .ofFlag c flag
  | none => .invalid c (.unknownFlag (String.ofList ['-', letter]) none)

/-- What a flag asks for, if an argument is one. -/
def readFlag? (c : Command) (argument : String) : Option Request :=
  match argument.toList with
  | '-' :: '-' :: l => some (readLongFlag c l)
  | '-' :: letter :: _ => some (readShortFlag c letter)
  | _ => none

/-- What the arguments of a command without commands ask for. -/
def readOperands (c : Command) (afterDashes : Bool) : List String → Request
  | [] => .run c
  | a :: rest =>
    let unknown := Request.invalid c (.unknownFlag a none)
    if afterDashes then unknown
    else if a = "--" then readOperands c true rest
    else (readFlag? c a).getD unknown

/-- What the commands that help is asked for ask for. -/
def readHelp (c : Command) : List String → Request
  | [] => .help c
  | a :: rest =>
    match c.find? a with
    | some c => readHelp c rest
    | none => .invalid c (.unknownCommand a [])

/-- What the arguments of the program ask for. -/
def read (afterDashes : Bool) : List String → Request
  | [] => .nothing
  | a :: rest =>
    let unknown := Request.invalid .program
      (.unknownCommand a (Text.similarWords a (Command.names.map (·.1))))
    match Command.program.find? a, afterDashes with
    | some _, true => .invalid .program (.needlessDashes a)
    | none, true => unknown
    | some .help, false => readHelp .program rest
    | some c, false => readOperands c false rest
    | none, false =>
      if a = "--" then read true rest else (readFlag? .program a).getD unknown

end MessageBroker.CommandLine
