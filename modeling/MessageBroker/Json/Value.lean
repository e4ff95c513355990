/-! # JSON values

JSON values and their compact written form, in which a text escapes exactly the double quote, the
backslash and the control characters. -/

namespace MessageBroker

/-- A JSON value whose numbers are integers. -/
inductive Json
  | null
  | bool (b : Bool)
  | number (n : Int)
  | text (s : String)
  | array (items : List Json)
  | object (members : List (String × Json))

namespace Json

instance : Inhabited Json := ⟨null⟩

/-- A character within a written text. -/
def escape (c : Char) : List Char :=
  if c = '"' then ['\\', '"']
  else if c = '\\' then ['\\', '\\']
  else if 32 ≤ c.toNat then [c]
  else if c.toNat = 8 then ['\\', 'b']
  else if c.toNat = 9 then ['\\', 't']
  else if c.toNat = 10 then ['\\', 'n']
  else if c.toNat = 12 then ['\\', 'f']
  else if c.toNat = 13 then ['\\', 'r']
  else ['\\', 'u', '0', '0', Nat.digitChar (c.toNat / 16), Nat.digitChar (c.toNat % 16)]

/-- The written form of a text. -/
def renderText (s : String) : List Char := '"' :: (s.toList.flatMap escape ++ ['"'])

/-- Lists of characters with commas between them. -/
def joinComma : List (List Char) → List Char
  | [] => []
  | [l] => l
  | l :: r => l ++ ',' :: joinComma r

mutual

/-- The written form of a value, as characters. -/
def renderChars : Json → List Char
  | null => ['n', 'u', 'l', 'l']
  | bool true => ['t', 'r', 'u', 'e']
  | bool false => ['f', 'a', 'l', 's', 'e']
  | number n => if n < 0 then '-' :: Nat.toDigits 10 n.natAbs else Nat.toDigits 10 n.natAbs
  | text s => renderText s
  | array items => '[' :: (joinComma (renderItems items) ++ [']'])
  | object members => '\x7b' :: (joinComma (renderMembers members) ++ ['\x7d'])

/-- The written forms of values. -/
def renderItems : List Json → List (List Char)
  | [] => []
  | v :: r => renderChars v :: renderItems r

/-- The written forms of members. -/
def renderMembers : List (String × Json) → List (List Char)
  | [] => []
  | (k, v) :: r => (renderText k ++ ':' :: renderChars v) :: renderMembers r

end

/-- The written form of a value. -/
def render (v : Json) : String := String.ofList v.renderChars

end Json

end MessageBroker
