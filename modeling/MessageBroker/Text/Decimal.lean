/-! # Decimal numerals

`padded w n` writes the last `w` decimal digits of `n`, so it is `n` itself in fixed width when
`n < 10 ^ w`; `numeral n` writes `n` without leading zeros. `read` reads an unsigned numeral up to
a limit: an optional plus sign and at least one digit, from left to right, so the first digit that
is none or that leaves the range decides the problem reported. -/

namespace MessageBroker.Text.Decimal

/-- The character of a digit. -/
def digitChar (d : Nat) : Char := Char.ofNat (48 + d % 10)

/-- The value of a digit. -/
def digit? (c : Char) : Option Nat :=
  if 48 ≤ c.toNat ∧ c.toNat ≤ 57 then some (c.toNat - 48) else none

/-- The last `width` digits of a number. -/
def padded : Nat → Nat → List Char
  | 0, _ => []
  | width + 1, n => padded width (n / 10) ++ [digitChar n]

/-- The digits of a number, without leading zeros. -/
def numeral (n : Nat) : List Char := Nat.toDigits 10 n

/-- The digits of a number, with zeros in front up to a least width. -/
def atLeast (width n : Nat) : List Char :=
  List.replicate (width - (numeral n).length) '0' ++ numeral n

/-- The text of an integer. -/
def ofInt (n : Int) : String :=
  if n < 0 then String.ofList ('-' :: numeral n.natAbs) else String.ofList (numeral n.natAbs)

/-- What is wrong with a text that should be an unsigned numeral. -/
inductive Problem
  | empty
  | invalidDigit
  | tooLarge
  deriving DecidableEq

/-- The wording of a problem. -/
def Problem.message : Problem → String
  | .empty => "cannot parse integer from empty string"
  | .invalidDigit => "invalid digit found in string"
  | .tooLarge => "number too large to fit in target type"

/-- The number whose digits are those of `value` followed by the characters. -/
def readDigits (limit : Nat) : Nat → List Char → Except Problem Nat
  | value, [] => .ok value
  | value, c :: r =>
    match digit? c with
    | none => .error .invalidDigit
    | some d =>
      if limit < value * 10 + d then .error .tooLarge else readDigits limit (value * 10 + d) r

/-- The number of an unsigned numeral, at most `limit`. -/
def read (limit : Nat) (s : String) : Except Problem Nat :=
  match s.toList with
  | [] => .error .empty
  | ['+'] => .error .invalidDigit
  | '+' :: r => readDigits limit 0 r
  | l => readDigits limit 0 l

/-- The longest run of at most `most` leading digits, as a number, its length, and the rest. -/
def takeDigits : Nat → List Char → Nat × Nat × List Char
  | most, l =>
    let digits := (l.take most).takeWhile fun c => (digit? c).isSome
    (digits.foldl (fun n c => n * 10 + (digit? c).getD 0) 0, digits.length, l.drop digits.length)

theorem length_padded (width n : Nat) : (padded width n).length = width := by
  induction width generalizing n with
  | zero => rfl
  | succ w ih => simp [padded, ih]

theorem digit?_digitChar (d : Nat) : digit? (digitChar d) = some (d % 10) := by
  have h : d % 10 < 10 := Nat.mod_lt _ (by decide)
  unfold digitChar
  generalize d % 10 = k at h
  match k, h with
  | 0, _ | 1, _ | 2, _ | 3, _ | 4, _ | 5, _ | 6, _ | 7, _ | 8, _ | 9, _ => rfl

end MessageBroker.Text.Decimal
