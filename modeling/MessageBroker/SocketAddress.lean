import MessageBroker.Text.Decimal

/-! # Socket addresses

Which texts are the address of a socket: `a.b.c.d:port` with numbers in decimal, or `[group:…]:port`
with an address of version 6, in which `::` stands for zero groups, the last two groups can be
written as an address of version 4, and a scope can follow a percent sign. -/

namespace MessageBroker.SocketAddress

open MessageBroker.Text

/-- A decimal number, at most `limit`, and the rest. -/
def number? (limit : Nat) (l : List Char) : Option (Nat × List Char) :=
  match Decimal.takeDigits l.length l with
  | (n, digits, rest) => if digits = 0 ∨ limit < n then none else some (n, rest)

/-- The rest after a number from 0 to 255 in as few digits as possible. -/
def afterOctet? (l : List Char) : Option (List Char) :=
  match number? 255 l with
  | none => none
  | some (_, rest) =>
    let digits := l.length - rest.length
    if 3 < digits ∨ (l.head? = some '0' ∧ 1 < digits) then none else some rest

/-- The rest after a character. -/
def after? (c : Char) (l : List Char) : Option (List Char) :=
  match l with
  | [] => none
  | d :: r => if c = d then some r else none

/-- The rest after an address of version 4. -/
def afterVersion4? (l : List Char) : Option (List Char) := do
  let l ← after? '.' (← afterOctet? l)
  let l ← after? '.' (← afterOctet? l)
  let l ← after? '.' (← afterOctet? l)
  afterOctet? l

/-- Whether a character is a hexadecimal digit. -/
def isHexDigit (c : Char) : Bool :=
  c.isDigit || ('a'.toNat ≤ c.toNat && c.toNat ≤ 'f'.toNat)
    || ('A'.toNat ≤ c.toNat && c.toNat ≤ 'F'.toNat)

/-- The rest after a group of one to four hexadecimal digits. -/
def afterGroup? (l : List Char) : Option (List Char) :=
  let digits := (l.takeWhile isHexDigit).length
  if 1 ≤ digits ∧ digits ≤ 4 then some (l.drop digits) else none

/-- How many groups, at most `most`, stand in front, whether the last two of them are written as an
address of version 4, and the rest. -/
def takeGroups (first : Bool) : Nat → List Char → Nat × Bool × List Char
  | 0, l => (0, false, l)
  | most + 1, l =>
    match if first then some l else after? ':' l with
    | none => (0, false, l)
    | some start =>
      match if most = 0 then none else afterVersion4? start with
      | some rest => (2, true, rest)
      | none =>
        match afterGroup? start with
        | none => (0, false, l)
        | some rest =>
          match takeGroups false most rest with
          | (n, version4, rest) => (n + 1, version4, rest)

/-- The rest after an address of version 6. -/
def afterVersion6? (l : List Char) : Option (List Char) :=
  match takeGroups true 8 l with
  | (n, version4, rest) =>
    if n = 8 then some rest
    else if version4 then none
    else do
      let rest ← after? ':' (← after? ':' rest)
      some (takeGroups true (7 - n) rest).2.2

/-- The rest after a scope, if there is one. -/
def afterScope? (l : List Char) : Option (List Char) :=
  match after? '%' l with
  | none => some l
  | some l => (number? (UInt32.size - 1) l).map (·.2)

/-- Whether nothing but a colon and a port is left. -/
def isPort (l : List Char) : Bool :=
  match (after? ':' l).bind (number? (UInt16.size - 1)) with
  | some (_, []) => true
  | _ => false

/-- Whether a text is the address of a socket. -/
def isValid (s : String) : Bool :=
  match afterVersion4? s.toList with
  | some rest => isPort rest
  | none =>
    match (do after? ']' (← afterScope? (← afterVersion6? (← after? '[' s.toList)))) with
    | some rest => isPort rest
    | none => false

/-- The wording of the problem of a text that is no address. -/
def problem : String := "invalid socket address syntax"

end MessageBroker.SocketAddress
