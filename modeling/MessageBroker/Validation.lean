import MessageBroker.Dict

/-! # Validation

Entities are validated by a list of checks, each on one field. The errors keep, for every field, the
violation of its first failing check; `Check.violation?` says when a check fails and how. -/

namespace MessageBroker

/-- How a field can be invalid. -/
inductive Violation
  | blank
  | invalidFormat
  deriving DecidableEq

/-- The wording of a violation. -/
def Violation.message : Violation → String
  | .blank => "cannot be blank"
  | .invalidFormat => "must be in a valid format"

/-- Whether a character may occur in an identifier. -/
def isIdChar (c : Char) : Bool :=
  ('A' ≤ c && c ≤ 'Z') || ('a' ≤ c && c ≤ 'z') || ('0' ≤ c && c ≤ '9')
    || c = '.' || c = '_' || c = '-'

/-- Whether a text is an identifier of a queue, topic or subscription. -/
def isValidId (s : String) : Bool := !s.toList.isEmpty && s.toList.all isIdChar

/-- A condition on a field. -/
inductive Check
  /-- The text is not empty. -/
  | text (field value : String)
  /-- The number is not zero. -/
  | nonzero (field : String) (value : UInt32)
  /-- The text is an identifier. -/
  | id (field value : String)

/-- The field that a check is about. -/
def Check.field : Check → String
  | .text field _ | .nonzero field _ | .id field _ => field

/-- How a check fails, if it does. -/
def Check.violation? : Check → Option Violation
  | .text _ value => if value = "" then some .blank else none
  | .nonzero _ value => if value = 0 then some .blank else none
  | .id _ value =>
    if value = "" then some .blank else if isValidId value then none else some .invalidFormat

/-- The violations found, by field. -/
structure ValidationErrors where
  violations : Dict Violation
  deriving DecidableEq

namespace ValidationErrors

/-- No violations. -/
def none : ValidationErrors := ⟨Dict.empty⟩

/-- The errors after a further check, which leaves a violation of its field found before. -/
def add (e : ValidationErrors) (c : Check) : ValidationErrors :=
  match c.violation? with
  | .none => e
  | .some v => ⟨e.violations.insertNew c.field v⟩

/-- The errors of checks, made in order. -/
def ofChecks (checks : List Check) : ValidationErrors := checks.foldl add none

/-- The violation of a field. -/
def get? (e : ValidationErrors) (field : String) : Option Violation := e.violations.get? field

def isEmpty (e : ValidationErrors) : Bool := e.violations.isEmpty

/-- The wording of the errors: the fields in ascending order. -/
def message (e : ValidationErrors) : String :=
  "; ".intercalate (e.violations.entries.map fun (field, v) => field ++ ": " ++ v.message)

end ValidationErrors

end MessageBroker
