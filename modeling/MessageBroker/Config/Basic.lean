import MessageBroker.Config.EnvironmentFile
import MessageBroker.Text.Decimal

/-! # Configuration

The settings of the program, read from the variables whose names have the stem `ROWMQ_`. What
follows the stem names a setting, in any case. Other variables are passed over, no setting may be
given twice, and those not given keep their defaults. The first problem decides. -/

namespace MessageBroker

open MessageBroker.Text

/-- The settings of the program. -/
structure Config where
  /-- The path of the database. -/
  dbPath : String
  host : String
  port : UInt16
  /-- How many connections to the database can be open at once. -/
  maxConnections : UInt32
  /-- The greatest number of messages that a request can lease at once. -/
  queueMaxNumberOfMessages : UInt32
  shutdownTimeoutSeconds : UInt64
  metricsHost : String
  metricsPort : UInt16
  deriving DecidableEq

namespace Config

/-- The settings if none is given. -/
def default : Config := ⟨"rowmq.db", "0.0.0.0", 8000, 5, 10, 5, "0.0.0.0", 9090⟩

instance : Inhabited Config := ⟨default⟩

/-- Why the settings cannot be read. -/
inductive Problem
  | repeated (setting : String)
  /-- The value is no number of the setting's range. -/
  | number (problem : Decimal.Problem) (value name : String)
  deriving DecidableEq

/-- The wording of a problem. -/
def Problem.message : Problem → String
  | .repeated setting => "duplicate field `" ++ setting ++ "`"
  | .number problem value name =>
    problem.message ++ " while parsing value '" ++ value ++ "' provided by " ++ name

/-- A setting: its name, and how its value enters the configuration. -/
structure Setting where
  name : String
  read : Config → String → Except Decimal.Problem Config

/-- A setting that is a text. -/
def Setting.text (name : String) (set : Config → String → Config) : Setting :=
  ⟨name, fun c value => .ok (set c value)⟩

/-- A setting that is a number below a bound. -/
def Setting.number (name : String) (bound : Nat) (set : Config → Nat → Config) : Setting :=
  ⟨name, fun c value => (Decimal.read (bound - 1) value).map (set c)⟩

/-- The settings. -/
def settings : List Setting :=
  [.text "db_path" fun c s => { c with dbPath := s },
    .text "host" fun c s => { c with host := s },
    .number "port" UInt16.size fun c n => { c with port := UInt16.ofNat n },
    .number "max_connections" UInt32.size fun c n => { c with maxConnections := UInt32.ofNat n },
    .number "queue_max_number_of_messages" UInt32.size fun c n =>
      { c with queueMaxNumberOfMessages := UInt32.ofNat n },
    .number "shutdown_timeout_seconds" UInt64.size fun c n =>
      { c with shutdownTimeoutSeconds := UInt64.ofNat n },
    .text "metrics_host" fun c s => { c with metricsHost := s },
    .number "metrics_port" UInt16.size fun c n => { c with metricsPort := UInt16.ofNat n }]

/-- What the names of the program's variables begin with. -/
def stem : List Char := "ROWMQ_".toList

/-- A list without copies of the stem in front, at most `most` of them. -/
def dropStems : Nat → List Char → List Char
  | 0, l => l
  | most + 1, l => if stem.isPrefixOf l then dropStems most (l.drop stem.length) else l

/-- What follows the stem of a variable's name, if it has one. A repeated stem counts as one. -/
def afterStem? (name : String) : Option String :=
  if stem.isPrefixOf name.toList then
    some (String.ofList (dropStems name.length name.toList))
  else none

/-- A text with its ASCII letters in lower case. -/
def lower (s : String) : String := String.ofList (s.toList.map Char.toLower)

/-- The configuration that variables make of `c`, of whose settings some are given. -/
def readVariables (given : List String) (c : Config) : Environment → Except Problem Config
  | [] => .ok c
  | (name, value) :: rest =>
    match afterStem? name with
    | none => readVariables given c rest
    | some name =>
      match settings.find? (·.name = lower name) with
      | none => readVariables given c rest
      | some setting =>
        if setting.name ∈ given then .error (.repeated setting.name)
        else
          match setting.read c value with
          | .error problem => .error (.number problem value name)
          | .ok c => readVariables (setting.name :: given) c rest

/-- The configuration of an environment. -/
def ofEnvironment (env : Environment) : Except Problem Config := readVariables [] default env

/-- The configuration of an environment and an environment file, if there is one. -/
def load (env : Environment) (file : Option String) : Except Problem Config :=
  ofEnvironment (match file with
    | none => env
    | some file => env.withFile file)

end Config

end MessageBroker
