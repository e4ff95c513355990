import MessageBroker.Number.Shortest
import MessageBroker.Text.Decimal
import MessageBroker.Text.Quoted

/-! # Problems of JSON texts

What can be wrong with a JSON text, how it is worded, and where it is. A failure keeps the bytes
that follow the place it is reported at; `Failure.message` counts that place from the start of the
text, in lines and in bytes. -/

namespace MessageBroker.Json

/-- A value of a kind that was not expected. -/
inductive Found
  | null
  | bool (b : Bool)
  | integer (n : Int)
  | float (negative : Bool) (magnitude : Binary64)
  | text (s : String)
  | list
  | object

/-- The wording of a found value. -/
def Found.message : Found → String
  | .null => "null"
  | .bool true => "boolean `true`"
  | .bool false => "boolean `false`"
  | .integer n => "integer `" ++ Text.Decimal.ofInt n ++ "`"
  | .float negative f => "floating point `" ++ (if negative then "-" else "") ++ f.text ++ "`"
  | .text s => "string " ++ Text.quoted s
  | .list => "sequence"
  | .object => "map"

/-- What is wrong with a JSON text. -/
inductive Problem
  | endInList
  | endInObject
  | endInText
  | endInValue
  | expectedColon
  | expectedListEnd
  | expectedObjectEnd
  | expectedWord
  | expectedValue
  | invalidEscape
  | invalidNumber
  | numberOutOfRange
  | invalidCharacter
  | controlCharacter
  | keyNotText
  | loneSurrogate
  | unfinishedSurrogate
  | trailingComma
  | trailingBytes
  | wrongKind (found : Found) (expected : String)
  | wrongValue (n : Int) (expected : String)
  | repeatedField (name : String)

/-- The wording of a problem. -/
def Problem.message : Problem → String
  | .endInList => "EOF while parsing a list"
  | .endInObject => "EOF while parsing an object"
  | .endInText => "EOF while parsing a string"
  | .endInValue => "EOF while parsing a value"
  | .expectedColon => "expected `:`"
  | .expectedListEnd => "expected `,` or `]`"
  | .expectedObjectEnd => "expected `,` or `\x7d`"
  | .expectedWord => "expected ident"
  | .expectedValue => "expected value"
  | .invalidEscape => "invalid escape"
  | .invalidNumber => "invalid number"
  | .numberOutOfRange => "number out of range"
  | .invalidCharacter => "invalid unicode code point"
  | .controlCharacter => "control character (\\u0000-\\u001F) found while parsing a string"
  | .keyNotText => "key must be a string"
  | .loneSurrogate => "lone leading surrogate in hex escape"
  | .unfinishedSurrogate => "unexpected end of hex escape"
  | .trailingComma => "trailing comma"
  | .trailingBytes => "trailing characters"
  | .wrongKind found expected => "invalid type: " ++ found.message ++ ", expected " ++ expected
  | .wrongValue n expected =>
    "invalid value: integer `" ++ Text.Decimal.ofInt n ++ "`, expected " ++ expected
  | .repeatedField name => "duplicate field `" ++ name ++ "`"

/-- A problem and the bytes after the place it is reported at. -/
structure Failure where
  problem : Problem
  rest : List UInt8

/-- Line and column of the end of some bytes, from a given line and column on. -/
def position : Nat → Nat → List UInt8 → Nat × Nat
  | line, column, [] => (line, column)
  | line, column, b :: r =>
    if b == 10 then position (line + 1) 0 r else position line (column + 1) r

/-- The wording of a failure in a text. -/
def Failure.message (f : Failure) (text : List UInt8) : String :=
  let (line, column) := position 1 0 (text.take (text.length - f.rest.length))
  f.problem.message ++ " at line " ++ Text.Decimal.ofInt line ++ " column "
    ++ Text.Decimal.ofInt column

/-- A problem of the bytes before `rest`. -/
def fail {α : Type} (problem : Problem) (rest : List UInt8) : Except Failure α :=
  .error ⟨problem, rest⟩

/-- A problem of the first of the bytes that follow, or of their absence. -/
def failNext {α : Type} (problem : Problem) (rest : List UInt8) : Except Failure α :=
  .error ⟨problem, rest.drop 1⟩

end MessageBroker.Json
