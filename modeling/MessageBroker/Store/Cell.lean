import MessageBroker.Text.Decimal

/-! # Cells

What an integer column of a stored row holds: an integer, or a text that denotes none. A text put
into such a column is kept as the integer that it denotes, if it denotes one. -/

namespace MessageBroker.Store

open MessageBroker.Text

/-- The content of an integer column. -/
inductive Cell
  | integer (n : Int)
  | text (s : String)
  deriving DecidableEq

namespace Cell

/-- Whether a character is a blank around a number. -/
def isBlank (c : Char) : Bool := c = ' ' || (9 ≤ c.toNat && c.toNat ≤ 13)

/-- The characters after leading and before trailing blanks. -/
def trim (l : List Char) : List Char :=
  ((l.dropWhile isBlank).reverse.dropWhile isBlank).reverse

/-- A sign in front, and the rest. -/
def sign (l : List Char) : Int × List Char :=
  match l with
  | '-' :: r => (-1, r)
  | '+' :: r => (1, r)
  | l => (1, l)

/-- The digits after a decimal point, as the number that they continue, and the rest. -/
def fraction (n count : Nat) (l : List Char) : Nat × Nat × Nat × List Char :=
  match l with
  | '.' :: r =>
    match Decimal.takeDigits r.length r with
    | (m, digits, rest) => (n * Nat.pow 10 digits + m, count + digits, digits, rest)
  | l => (n, count, 0, l)

/-- The power of ten that a number is scaled by, if the characters are one or none. -/
def exponent? (l : List Char) : Option Int :=
  match l with
  | [] => some 0
  | c :: r =>
    if c = 'e' ∨ c = 'E' then
      match sign r with
      | (s, r) =>
        match Decimal.takeDigits r.length r with
        | (e, digits, rest) => if digits = 0 ∨ rest ≠ [] then none else some (s * e)
    else none

/-- The integer `n * 10 ^ e`, if it is one of at most 64 bits. -/
def scaled? (n : Int) (e : Int) : Option Int :=
  if n = 0 then some 0
  else if 20 < e.natAbs then none
  else
    let p : Int := Nat.pow 10 e.natAbs
    let value := if 0 ≤ e then n * p else n / p
    if (0 ≤ e ∨ n % p = 0) ∧ -9223372036854775808 ≤ value ∧ value ≤ 9223372036854775807 then
      some value
    else none

/-- The integer that a numeral denotes: it may have blanks around it, a sign, a fraction and an
exponent. -/
def integer? (s : String) : Option Int := do
  let (sign, l) := sign (trim s.toList)
  let (n, digits, l) := Decimal.takeDigits l.length l
  let (n, digits, places, l) := fraction n digits l
  let e ← exponent? l
  if digits = 0 then none else scaled? (sign * n) (e - places)

/-- The cell of a text. -/
def ofText (s : String) : Cell :=
  match integer? s with
  | some n => integer n
  | none => text s

/-- The cell of a word. -/
def ofWord (n : UInt32) : Cell := integer n.toNat

/-- The word that a cell holds. -/
def word? : Cell → Option UInt32
  | integer n => if 0 ≤ n ∧ n < UInt32.size then some (UInt32.ofNat n.toNat) else none
  | text _ => none

/-- The cell with its integer increased by one. -/
def succ : Cell → Cell
  | integer n => integer (n + 1)
  | text s => text s

theorem word?_ofWord (n : UInt32) : (ofWord n).word? = some n := by
  have h : n.toNat < UInt32.size := n.toNat_lt_size
  have h' : (0 : Int) ≤ n.toNat ∧ (n.toNat : Int) < UInt32.size := by omega
  simp only [ofWord, word?, if_pos h', Int.toNat_natCast, UInt32.ofNat_toNat]

end Cell

end MessageBroker.Store
