import MessageBroker.Dict
import MessageBroker.Json.Lexeme

/-! # Reading typed JSON

Readers for the values that requests and stored columns hold: texts, words of 32 bits, optional
texts, lists, dictionaries, and records. A record is written as an object, whose unknown members are
passed over and in which no field may occur twice, or as a list of its fields in order; fields left
out keep their defaults. `decode` reads a whole text. -/

namespace MessageBroker.Json

/-- A reader of values at the start of some bytes. -/
abbrev Reader (α : Type) : Type := List UInt8 → Except Failure (α × List UInt8)

/-- The failure of a value that is not of the expected kind. Such a value is read if it is a word, a
text or a number, and stands for itself if it is a list or an object. -/
def wrongKind {α : Type} (expected : String) (l : List UInt8) : Except Failure α :=
  let wrong (found : Found) (rest : List UInt8) : Except Failure α :=
    fail (.wrongKind found expected) rest
  match l with
  | [] => fail .endInValue []
  | b :: r =>
    if b == 'n'.toUInt8 then do wrong .null (← readWord ['u', 'l', 'l'] r)
    else if b == 't'.toUInt8 then do wrong (.bool true) (← readWord ['r', 'u', 'e'] r)
    else if b == 'f'.toUInt8 then do wrong (.bool false) (← readWord ['a', 'l', 's', 'e'] r)
    else if b == '-'.toUInt8 then do
      let (n, rest) ← readNumber true r
      wrong n.found rest
    else if isDigit b then do
      let (n, rest) ← readNumber false l
      wrong n.found rest
    else if b == '"'.toUInt8 then do
      let (s, rest) ← readText [] r
      wrong (.text s) rest
    else if b == '['.toUInt8 then wrong .list l
    else if b == '\x7b'.toUInt8 then wrong .object l
    else failNext .expectedValue l

/-! ### Single values -/

/-- A text. -/
def Reader.text : Reader String := fun l =>
  let l := skipBlanks l
  if startsWith '"' l then readText [] (l.drop 1) else wrongKind "a string" l

/-- A text or null. -/
def Reader.optionalText : Reader (Option String) := fun l =>
  let l := skipBlanks l
  if startsWith 'n' l then do
    let rest ← readWord ['u', 'l', 'l'] (l.drop 1)
    return (none, rest)
  else do
    let (s, rest) ← Reader.text l
    return (some s, rest)

/-- A natural number below `2 ^ 32`. -/
def Reader.word : Reader UInt32 := fun l => do
  let l := skipBlanks l
  let (n, rest) ←
    if startsWith '-' l then readNumber true (l.drop 1)
    else if startsWithDigit l then readNumber false l
    else wrongKind "u32" l
  match n with
  | .natural n =>
    if n < UInt32.size then .ok (UInt32.ofNat n, rest) else fail (.wrongValue n "u32") rest
  | .negative n => fail (.wrongValue (-n) "u32") rest
  | .float .. => fail (.wrongKind n.found "u32") rest

/-! ### Lists and objects -/

/-- The bytes at the next element of a list, or none at its end. -/
def nextElement? (first : Bool) (l : List UInt8) : Except Failure (Option (List UInt8)) :=
  let l := skipBlanks l
  if l = [] then failNext .endInList l
  else if startsWith ']' l then .ok none
  else if first then .ok (some l)
  else if startsWith ',' l then
    let l := skipBlanks (l.drop 1)
    if l = [] then failNext .endInValue l
    else if startsWith ']' l then failNext .trailingComma l
    else .ok (some l)
  else failNext .expectedListEnd l

/-- The bytes after the opening quote of the next key of an object, or none at its end. -/
def nextKey? (first : Bool) (l : List UInt8) : Except Failure (Option (List UInt8)) :=
  let l := skipBlanks l
  let key (l : List UInt8) : Except Failure (Option (List UInt8)) :=
    if l = [] then failNext .endInValue l
    else if startsWith '"' l then .ok (some (l.drop 1))
    else if startsWith '\x7d' l then failNext .trailingComma l
    else failNext .keyNotText l
  if l = [] then failNext .endInObject l
  else if startsWith '\x7d' l then .ok none
  else if first then key l
  else if startsWith ',' l then key (skipBlanks (l.drop 1))
  else failNext .expectedObjectEnd l

/-- The bytes after the colon of a member. -/
def readColon (l : List UInt8) : Except Failure (List UInt8) :=
  let l := skipBlanks l
  if l = [] then failNext .endInObject l
  else if startsWith ':' l then .ok (l.drop 1)
  else failNext .expectedColon l

/-- The end of a list of which enough elements are read. -/
def endList (l : List UInt8) : Except Failure (List UInt8) :=
  let l := skipBlanks l
  if l = [] then failNext .endInList l
  else if startsWith ']' l then .ok (l.drop 1)
  else if startsWith ',' l then
    let l := skipBlanks (l.drop 1)
    if startsWith ']' l then failNext .trailingComma l else failNext .trailingBytes l
  else failNext .trailingBytes l

/-- The elements up to the end of a list, at most `fuel` of them. -/
def readElements {α : Type} (element : Reader α) :
    Nat → Bool → List α → List UInt8 → Except Failure (List α × List UInt8)
  | 0, _, _, _ => fail .endInList []
  | fuel + 1, first, read, l => do
    match ← nextElement? first l with
    | none => return (read.reverse, (skipBlanks l).drop 1)
    | some l =>
      let (a, l) ← element l
      readElements element fuel false (a :: read) l

/-- A list. -/
def Reader.list {α : Type} (element : Reader α) : Reader (List α) := fun l =>
  let l := skipBlanks l
  if startsWith '[' l then readElements element l.length true [] (l.drop 1)
  else wrongKind "a sequence" l

/-- The members up to the end of an object, at most `fuel` of them. -/
def readEntries {α : Type} (value : Reader α) :
    Nat → Bool → Dict α → List UInt8 → Except Failure (Dict α × List UInt8)
  | 0, _, _, _ => fail .endInObject []
  | fuel + 1, first, read, l => do
    match ← nextKey? first l with
    | none => return (read, (skipBlanks l).drop 1)
    | some l =>
      let (key, l) ← readText [] l
      let (a, l) ← value (← readColon l)
      readEntries value fuel false (read.insert key a) l

/-- An object as a dictionary. -/
def Reader.dict {α : Type} (value : Reader α) : Reader (Dict α) := fun l =>
  let l := skipBlanks l
  if startsWith '\x7b' l then readEntries value l.length true Dict.empty (l.drop 1)
  else wrongKind "a map" l

/-! ### Passing over values -/

/-- A list or object within which a value stands. -/
inductive Frame
  | list
  | object
  deriving DecidableEq

/-- What is expected next while a value is passed over. -/
inductive Expected
  | value
  /-- What follows the opening bracket of the innermost frame. -/
  | opened
  /-- What follows a value within the innermost frame. -/
  | next

/-- The key and colon of a member. -/
def skipKey (l : List UInt8) : Except Failure (List UInt8) :=
  let l := skipBlanks l
  if l = [] then failNext .endInObject l
  else if startsWith '"' l then do readColon (← skipText (l.drop 1))
  else failNext .keyNotText l

/-- The bytes at the next value of a frame. -/
def skipToValue : Frame → List UInt8 → Except Failure (List UInt8)
  | .list, l => .ok l
  | .object, l => skipKey l

/-- The bytes after a value and its frames, the innermost frame first, in at most `fuel` steps. -/
def skip : Nat → Expected → List Frame → List UInt8 → Except Failure (List UInt8)
  | 0, _, _, _ => fail .endInValue []
  | fuel + 1, .value, frames, l => do
    match skipBlanks l with
    | [] => failNext .endInValue []
    | b :: r =>
      if b == 'n'.toUInt8 then skip fuel .next frames (← readWord ['u', 'l', 'l'] r)
      else if b == 't'.toUInt8 then skip fuel .next frames (← readWord ['r', 'u', 'e'] r)
      else if b == 'f'.toUInt8 then skip fuel .next frames (← readWord ['a', 'l', 's', 'e'] r)
      else if b == '-'.toUInt8 then skip fuel .next frames (← skipNumber r)
      else if isDigit b then skip fuel .next frames (← skipNumber (b :: r))
      else if b == '"'.toUInt8 then skip fuel .next frames (← skipText r)
      else if b == '['.toUInt8 then skip fuel .opened (.list :: frames) r
      else if b == '\x7b'.toUInt8 then skip fuel .opened (.object :: frames) r
      else failNext .expectedValue (b :: r)
  | _ + 1, .opened, [], l | _ + 1, .next, [], l => .ok l
  | fuel + 1, expected, frame :: frames, l => do
    let rest := skipBlanks l
    let close := match frame with | .list => ']' | .object => '\x7d'
    let after := match expected with | .next => true | _ => false
    if rest = [] then failNext (match frame with | .list => .endInList | .object => .endInObject) []
    else if after && startsWith ',' rest then
      skip fuel .value (frame :: frames) (← skipToValue frame (rest.drop 1))
    else if startsWith close rest then skip fuel .next frames (rest.drop 1)
    else if after then
      failNext (match frame with | .list => .expectedListEnd | .object => .expectedObjectEnd) rest
    else skip fuel .value (frame :: frames) (← skipToValue frame rest)

/-- The bytes after a value, whatever it is. -/
def skipValue (l : List UInt8) : Except Failure (List UInt8) :=
  skip (2 * l.length + 2) .value [] l

/-! ### Records -/

/-- A field of a record: its name, and how its value enters the record. -/
structure Field (σ : Type) where
  name : String
  read : σ → Reader σ

/-- The field of a text. -/
def Field.ofReader {σ α : Type} (name : String) (value : Reader α) (set : σ → α → σ) : Field σ :=
  ⟨name, fun s l => (value l).map fun (a, rest) => (set s a, rest)⟩

/-- The fields of a record written as a list, in order, as many as there are. -/
def readPositional {σ : Type} : List (Field σ) → Bool → σ → List UInt8 →
    Except Failure (σ × List UInt8)
  | [], _, s, l => do return (s, ← endList l)
  | f :: fs, first, s, l => do
    match ← nextElement? first l with
    | none => return (s, ← endList l)
    | some l =>
      let (s, l) ← f.read s l
      readPositional fs false s l

/-- The members of a record up to the end of the object, at most `fuel` of them. -/
def readMembers {σ : Type} (fields : List (Field σ)) :
    Nat → Bool → List String → σ → List UInt8 → Except Failure (σ × List UInt8)
  | 0, _, _, _, _ => fail .endInObject []
  | fuel + 1, first, seen, s, l => do
    match ← nextKey? first l with
    | none => return (s, (skipBlanks l).drop 1)
    | some l =>
      let (key, l) ← readText [] l
      match fields.find? (·.name = key) with
      | none => readMembers fields fuel false seen s (← skipValue (← readColon l))
      | some f =>
        if key ∈ seen then
          let rest := skipBlanks l
          fail (.repeatedField key) (if startsWith '\x7d' rest then rest.drop 1 else rest)
        else
          let (s, l) ← f.read s (← readColon l)
          readMembers fields fuel false (key :: seen) s l

/-- A record with the given fields and defaults. -/
def Reader.record {σ : Type} (name : String) (fields : List (Field σ)) (default : σ) :
    Reader σ := fun l =>
  let l := skipBlanks l
  if startsWith '[' l then readPositional fields true default (l.drop 1)
  else if startsWith '\x7b' l then readMembers fields l.length true [] default (l.drop 1)
  else wrongKind ("struct " ++ name) l

/-- The value that the whole of a text holds. -/
def decode {α : Type} (value : Reader α) (l : List UInt8) : Except Failure α := do
  let (a, rest) ← value l
  let rest := skipBlanks rest
  if rest = [] then return a else failNext .trailingBytes rest

end MessageBroker.Json
