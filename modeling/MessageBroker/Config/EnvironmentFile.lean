import MessageBroker.Text.Alphanumeric
import MessageBroker.Text.Blank

/-! # Environment files

A file of assignments `NAME=value`, one a line, that extends an environment. A line can begin with
`export`; blank lines and comments are passed over. A quoted value can go on over several lines.
Within single quotes all characters stand for themselves; elsewhere a backslash escapes one, and
`$NAME` stands for the value that the environment has by then. A name that already has a value keeps
it. The first line that is malformed ends the reading; the assignments before it hold. -/

namespace MessageBroker

/-- Names with their values, in the order in which they were set. -/
abbrev Environment : Type := List (String × String)

namespace Environment

open MessageBroker.Text

/-- The value of a name. -/
def valueOf? (env : Environment) (name : String) : Option String :=
  (env.find? (·.1 = name)).map (·.2)

/-- The environment with a value for a name that has none. -/
def setNew (env : Environment) (name value : String) : Environment :=
  if (env.valueOf? name).isSome then env else env ++ [(name, value)]

/-! ### Lines

A line ends with its line break. A quotation that is open at the end of a line goes on. -/

/-- Where in a line the characters read so far end. -/
inductive LineState
  | plain
  | blank
  | escape
  | single
  | singleEscape
  | double
  | doubleEscape
  deriving DecidableEq

/-- The state after a character, or none where a comment starts. -/
def LineState.next? (c : Char) : LineState → Option LineState
  | .blank =>
    if c = '#' then none
    else if c = '\\' then some .escape
    else if c = '"' then some .double
    else if c = '\'' then some .single
    else some .plain
  | .plain =>
    if isBlank c && c ≠ '\n' && c ≠ '\r' then some .blank
    else if c = '\\' then some .escape
    else if c = '"' then some .double
    else if c = '\'' then some .single
    else some .plain
  | .escape => some .plain
  | .double =>
    if c = '\\' then some .doubleEscape else if c = '"' then some .plain else some .double
  | .doubleEscape => some .double
  | .single =>
    if c = '\\' then some .singleEscape else if c = '\'' then some .plain else some .single
  | .singleEscape => some .single

/-- The part of a line before a comment, and the state in which it ends, or none after a comment. -/
def scanLine : LineState → List Char → List Char × Option LineState
  | state, [] => ([], some state)
  | state, c :: r =>
    match state.next? c with
    | none => ([], none)
    | some state =>
      match scanLine state r with
      | (front, result) => (c :: front, result)

/-- The lines of a text, with their line breaks. -/
def splitLines : List Char → List (List Char)
  | [] => []
  | c :: r =>
    if c = '\n' then [c] :: splitLines r
    else match splitLines r with
      | [] => [[c]]
      | line :: lines => (c :: line) :: lines

/-! ### Values -/

/-- How the next character of a value is read. -/
inductive ValueState
  | plain
  | single
  | escape
  /-- Within a name that a dollar sign stands in front of. -/
  | name (read : List Char)
  /-- Within such a name in braces. -/
  | braced (read : List Char)
  /-- After the blank that ends a value. -/
  | ended

/-- The character that a backslash and a character stand for. -/
def escaped? (c : Char) : Option Char :=
  if c = '\\' ∨ c = '\'' ∨ c = '"' ∨ c = '$' ∨ c = ' ' then some c
  else if c = 'n' then some '\n'
  else none

/-- The characters that a name stands for. -/
def expansion (env : Environment) (name : List Char) : List Char :=
  ((env.valueOf? (String.ofList name)).getD "").toList

/-- A value after the characters already read, within double quotes or not. -/
def readValue (env : Environment) (quoted : Bool) (value : List Char) :
    ValueState → List Char → Option (List Char)
  | .plain, [] | .escape, [] | .ended, [] => if quoted then none else some value
  | .single, [] | .braced _, [] => none
  | .name n, [] => if quoted then none else some (value ++ expansion env n)
  | .ended, c :: r =>
    if c = ' ' ∨ c = '\t' then readValue env quoted value .ended r
    else if c = '#' then some value
    else none
  | .escape, c :: r =>
    (escaped? c).bind fun c => readValue env quoted (value ++ [c]) .plain r
  | .single, c :: r =>
    if c = '\'' then readValue env quoted value .plain r
    else readValue env quoted (value ++ [c]) .single r
  | .name n, c :: r =>
    if isAlphanumeric c then readValue env quoted value (.name (n ++ [c])) r
    else if c = '\x7b' ∧ n = [] then readValue env quoted value (.braced []) r
    else if c = '$' then readValue env quoted (value ++ expansion env n) (.name []) r
    else readValue env quoted (value ++ expansion env n ++ [c]) .plain r
  | .braced n, c :: r =>
    if c = '\x7d' then readValue env quoted (value ++ expansion env n) .plain r
    else readValue env quoted value (.braced (n ++ [c])) r
  | .plain, c :: r =>
    if c = '$' then readValue env quoted value (.name []) r
    else if c = '\\' then readValue env quoted value .escape r
    else if c = '"' then readValue env (!quoted) value .plain r
    else if quoted then readValue env quoted (value ++ [c]) .plain r
    else if c = '\'' then readValue env quoted value .single r
    else if c = ' ' ∨ c = '\t' then readValue env quoted value .ended r
    else readValue env quoted (value ++ [c]) .plain r

/-! ### Assignments -/

/-- Whether a name can begin with a character. -/
def isNameStart (c : Char) : Bool := c.isAlpha || c = '_'

/-- Whether a name can go on with a character. -/
def isNameChar (c : Char) : Bool := c.isAlphanum || c = '_' || c = '.'

/-- A name, and the rest after it and blanks. -/
def readName? (l : List Char) : Option (List Char × List Char) :=
  match l with
  | [] => none
  | c :: _ =>
    if isNameStart c then some (l.takeWhile isNameChar, trimStart (l.dropWhile isNameChar))
    else none

/-- The rest after an equals sign. -/
def afterEquals? (l : List Char) : Option (List Char) :=
  match l with
  | [] => none
  | c :: r => if c = '=' then some r else none

/-- The name of an assignment, and the rest after the equals sign. -/
def readTarget? (l : List Char) : Option (List Char × List Char) := do
  let (name, l) ← readName? l
  match afterEquals? l with
  | some rest => some (name, rest)
  | none =>
    if name = "export".toList then do
      let (name, l) ← readName? l
      some (name, ← afterEquals? l)
    else none

/-- Whether nothing but a comment is left. -/
def isEmptyOrComment (l : List Char) : Bool :=
  match l with
  | [] => true
  | c :: _ => c = '#'

/-- The environment after a line, unless the line is malformed. -/
def assign? (env : Environment) (line : List Char) : Option Environment := do
  let l := trimStart (trimEnd line)
  if isEmptyOrComment l then some env
  else do
    let (name, l) ← readTarget? l
    let l := trimStart l
    let value ← if isEmptyOrComment l then some [] else readValue env false [] .plain l
    some (env.setNew (String.ofList name) (String.ofList value))

/-- The environment after lines, of which the first continues what was read before. -/
def assignLines (env : Environment) (read : List Char) (state : LineState) :
    List (List Char) → Environment
  | [] => env
  | line :: rest =>
    if (trimStart (read ++ line)).head? = some '#' then assignLines env [] .plain rest
    else
      let (front, result) := scanLine state line
      match result with
      | none | some .plain =>
        match env.assign? (read ++ front) with
        | none => env
        | some env => assignLines env [] .plain rest
      | some state => assignLines env (read ++ front) state rest

/-- The characters of a file without the mark of its encoding. -/
def withoutMark (l : List Char) : List Char :=
  match l with
  | [] => []
  | c :: r => if c = Char.ofNat 0xFEFF then r else c :: r

/-- The environment extended by a file. -/
def withFile (env : Environment) (file : String) : Environment :=
  assignLines env [] .plain (splitLines (withoutMark file.toList))

end Environment

end MessageBroker
