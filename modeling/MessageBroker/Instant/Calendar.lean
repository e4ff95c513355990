import MessageBroker.Instant.Basic

/-! # The calendar

Days of the Gregorian calendar, extended to all years, counted from 1970-01-01. A cycle of 400
years has 146097 days; within it years are counted from the first of March, so that the leap day is
the last day of a year. -/

namespace MessageBroker.Instant

/-- A day of the calendar. -/
structure Date where
  year : Int
  /-- From 1 to 12. -/
  month : Nat
  /-- From 1 on. -/
  day : Nat
  deriving DecidableEq

namespace Date

/-- Days in a cycle of 400 years. -/
def daysPerCycle : Nat := 146097

/-- Days from 0000-03-01 to 1970-01-01. -/
def daysToEpoch : Nat := 719468

/-- The year within its cycle, from a day within the cycle. -/
def yearOfCycle (day : Nat) : Nat := (day - day / 1460 + day / 36524 - day / 146096) / 365

/-- The days of a cycle before one of its years. -/
def daysBeforeYear (year : Nat) : Nat := 365 * year + year / 4 - year / 100

/-- The days before the months of a year, counted from March. -/
def daysBeforeMonth (march : Nat) : Nat := (153 * march + 2) / 5

/-- The date a number of days after 1970-01-01. -/
def ofDays (days : Int) : Date :=
  let shifted := days + daysToEpoch
  let cycle := shifted / daysPerCycle
  let dayOfCycle := (shifted % daysPerCycle).toNat
  let year := yearOfCycle dayOfCycle
  let dayOfYear := dayOfCycle - daysBeforeYear year
  let march := (5 * dayOfYear + 2) / 153
  let day := dayOfYear - daysBeforeMonth march + 1
  let month := if march < 10 then march + 3 else march - 9
  ⟨cycle * 400 + year + (if month ≤ 2 then 1 else 0), month, day⟩

/-- The number of days from 1970-01-01 to the date. -/
def toDays (d : Date) : Int :=
  let year := if d.month ≤ 2 then d.year - 1 else d.year
  let cycle := year / 400
  let yearOfCycle := (year % 400).toNat
  let march := if d.month ≤ 2 then d.month + 9 else d.month - 3
  let dayOfCycle := daysBeforeYear yearOfCycle + daysBeforeMonth march + (d.day - 1)
  cycle * daysPerCycle + dayOfCycle - daysToEpoch

/-- Whether a year has a leap day. -/
def isLeap (year : Int) : Bool := year % 4 == 0 && (year % 100 != 0 || year % 400 == 0)

/-- The number of days of a month. -/
def daysInMonth (year : Int) (month : Nat) : Nat :=
  if month = 2 then (if isLeap year then 29 else 28)
  else if month = 4 ∨ month = 6 ∨ month = 9 ∨ month = 11 then 30
  else 31

/-- Whether the calendar has the date. -/
def isValid (d : Date) : Bool :=
  1 ≤ d.month && d.month ≤ 12 && 1 ≤ d.day && d.day ≤ daysInMonth d.year d.month

end Date

/-- Seconds in a day. -/
def secondsPerDay : Nat := 86400

/-- The date of an instant. -/
def date (t : Instant) : Date := Date.ofDays (t.seconds / secondsPerDay)

/-- Seconds since the last midnight. -/
def secondOfDay (t : Instant) : Nat := (t.seconds % secondsPerDay).toNat

/-- The instant of a date, a second of its day, and nanoseconds. -/
def ofDate (d : Date) (secondOfDay : Int) (nanos : Nat) : Instant :=
  ofParts (d.toDays * secondsPerDay + secondOfDay) nanos

end MessageBroker.Instant
