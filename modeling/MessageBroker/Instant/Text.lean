import MessageBroker.Instant.Calendar
import MessageBroker.Text.Blank
import MessageBroker.Text.Decimal

/-! # The written form of instants

An instant is written as `YYYY-MM-DDTHH:MM:SS`, a fraction of 3, 6 or 9 digits (the fewest that are
exact, none for a whole second), and the offset from UTC. Storage writes the offset as `+00:00`,
answers write it as `Z`. A year outside 0 to 9999 has a sign and at least four digits.

`read?` reads more than `write` writes: either case of `T` and `Z` or a blank between date and
time, an omitted second or offset, any offset, and numbers without leading zeros. -/

namespace MessageBroker.Instant

open MessageBroker.Text

/-- The digits of a year. -/
def yearText (year : Int) : List Char :=
  if 0 ≤ year ∧ year ≤ 9999 then Decimal.padded 4 year.toNat
  else (if year < 0 then '-' else '+') :: Decimal.atLeast 4 year.natAbs

/-- The fraction of a second, in the fewest digits of 0, 3, 6 and 9. -/
def fractionText (nanos : Nat) : List Char :=
  if nanos = 0 then []
  else if nanos % 1000000 = 0 then '.' :: Decimal.padded 3 (nanos / 1000000)
  else if nanos % 1000 = 0 then '.' :: Decimal.padded 6 (nanos / 1000)
  else '.' :: Decimal.padded 9 nanos

/-- The written form of an instant, up to the offset. -/
def localText (t : Instant) : List Char :=
  let d := t.date
  let s := t.secondOfDay
  yearText d.year ++ ['-'] ++ Decimal.padded 2 d.month ++ ['-'] ++ Decimal.padded 2 d.day ++ ['T']
    ++ Decimal.padded 2 (s / 3600) ++ [':'] ++ Decimal.padded 2 (s / 60 % 60) ++ [':']
    ++ Decimal.padded 2 (s % 60) ++ fractionText t.subsecond

/-- The written form of an instant in storage. -/
def stored (t : Instant) : String := String.ofList (t.localText ++ ['+', '0', '0', ':', '0', '0'])

/-- The written form of an instant in answers. -/
def shown (t : Instant) : String := String.ofList (t.localText ++ ['Z'])

/-- The rest of the characters after a given one. -/
def after? (c : Char) : List Char → Option (List Char)
  | [] => none
  | d :: r => if c = d then some r else none

/-- A number of at most `most` digits, and the rest. -/
def number? (most : Nat) (l : List Char) : Option (Nat × List Char) :=
  match Decimal.takeDigits most (trimStart l) with
  | (n, length, rest) => if length = 0 then none else some (n, rest)

/-- A year, and the rest. -/
def year? (l : List Char) : Option (Int × List Char) :=
  match trimStart l with
  | '-' :: r => (number? r.length r).map fun (n, rest) => (-(n : Int), rest)
  | '+' :: r => (number? r.length r).map fun (n, rest) => ((n : Int), rest)
  | l => (number? 4 l).map fun (n, rest) => ((n : Int), rest)

/-- A date of the calendar, and the rest. -/
def date? (l : List Char) : Option (Date × List Char) := do
  let (year, l) ← year? l
  let (month, l) ← number? 2 (← after? '-' l)
  let (day, l) ← number? 2 (← after? '-' l)
  if Date.isValid ⟨year, month, day⟩ then some (⟨year, month, day⟩, l) else none

/-- What stands between date and time. -/
def separator? : List Char → Option (List Char)
  | [] => none
  | c :: r => if c = 'T' ∨ c = 't' ∨ c = ' ' then some r else none

/-- The nanoseconds of a fraction, and the rest. -/
def fraction? : List Char → Option (Nat × List Char)
  | '.' :: r =>
    match Decimal.takeDigits 9 r with
    | (n, length, rest) =>
      if length = 0 then none
      else some (n * Nat.pow 10 (9 - length), rest.dropWhile fun c => (Decimal.digit? c).isSome)
  | l => some (0, l)

/-- The second of a day with its nanoseconds, and the rest. -/
def time? (l : List Char) : Option (Nat × Nat × List Char) := do
  let (hour, l) ← number? 2 l
  let (minute, l) ← number? 2 (← after? ':' l)
  let (second, nanos, l) ← match after? ':' l with
    | none => some (0, 0, l)
    | some l => do
      let (second, l) ← number? 2 l
      let (nanos, l) ← fraction? l
      some (second, nanos, l)
  if hour < 24 ∧ minute < 60 ∧ second ≤ 60 then
    some (hour * 3600 + minute * 60 + second, nanos, l)
  else none

/-- Two digits, and the rest. -/
def twoDigits? (l : List Char) : Option (Nat × List Char) :=
  match Decimal.takeDigits 2 l with
  | (n, length, rest) => if length = 2 then some (n, rest) else none

/-- The seconds by which local time is ahead of UTC. -/
def offset? (l : List Char) : Option Int :=
  match l with
  | [] | ['Z'] | ['z'] => some 0
  | _ => do
    let (sign, l) ← match trimStart l with
      | '+' :: r => some ((1 : Int), r)
      | '-' :: r => some (-1, r)
      | _ => none
    let (hour, l) ← twoDigits? l
    let (minute, l) ← twoDigits? (l.dropWhile fun c => c = ':' || isBlank c)
    if l = [] ∧ hour < 24 ∧ minute < 60 then some (sign * (hour * 3600 + minute * 60)) else none

/-- The instant of a written form. -/
def read? (s : String) : Option Instant := do
  let (date, l) ← date? s.toList
  let (second, nanos, l) ← time? (← separator? l)
  let offset ← offset? l
  let t := ofDate date (second - offset) nanos
  if t.IsRepresentable then some t else none

end MessageBroker.Instant
