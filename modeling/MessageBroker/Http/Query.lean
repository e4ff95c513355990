import MessageBroker.Text.Decimal
import MessageBroker.Text.Percent

/-! # Queries

The parameters after the question mark of a request. Unknown parameters are passed over, no known
one may occur twice, and those left out keep their defaults. The first problem decides. -/

namespace MessageBroker.Http

open MessageBroker.Text

/-- What is wrong with a query. -/
inductive QueryProblem
  | repeated (name : String)
  | number (problem : Decimal.Problem)
  deriving DecidableEq

/-- The wording of a problem. -/
def QueryProblem.message : QueryProblem → String
  | .repeated name => "duplicate field `" ++ name ++ "`"
  | .number problem => problem.message

/-- A known parameter: its name, and how its value enters the query. -/
structure Parameter (σ : Type) where
  name : String
  read : σ → String → Except QueryProblem σ

/-- A parameter that can have any value. -/
def Parameter.text {σ : Type} (name : String) (set : σ → String → σ) : Parameter σ :=
  ⟨name, fun s value => .ok (set s value)⟩

/-- A parameter whose value is a number below `2 ^ 32`. -/
def Parameter.word {σ : Type} (name : String) (set : σ → UInt32 → σ) : Parameter σ :=
  ⟨name, fun s value =>
    match Decimal.read (UInt32.size - 1) value with
    | .ok n => .ok (set s (UInt32.ofNat n))
    | .error problem => .error (.number problem)⟩

/-- The query that pairs of names and values make of `s`, of whose parameters some are set. -/
def readPairs {σ : Type} (known : List (Parameter σ)) :
    List String → σ → List (String × String) → Except QueryProblem σ
  | _, s, [] => .ok s
  | seen, s, (name, value) :: rest =>
    match known.find? (·.name = name) with
    | none => readPairs known seen s rest
    | some p =>
      if name ∈ seen then .error (.repeated name)
      else do readPairs known (name :: seen) (← p.read s value) rest

/-- The query of a text, from its defaults. -/
def readQuery {σ : Type} (known : List (Parameter σ)) (default : σ) (query : String) :
    Except QueryProblem σ :=
  readPairs known [] default (Percent.formPairs query)

end MessageBroker.Http
