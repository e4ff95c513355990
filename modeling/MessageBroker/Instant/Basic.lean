/-! # Instants

A point of time is a number of nanoseconds since 1970-01-01T00:00:00Z. Instants are unbounded here;
`IsRepresentable` says which of them a calendar of the years -262143 to 262142 can show, and
`addSeconds?` stays within them. -/

namespace MessageBroker

/-- A point of time. -/
structure Instant where
  /-- Nanoseconds since 1970-01-01T00:00:00Z. -/
  nanos : Int
  deriving DecidableEq

namespace Instant

/-- Nanoseconds in a second. -/
def perSecond : Nat := 1000000000

/-- 1970-01-01T00:00:00Z. -/
def epoch : Instant := ⟨0⟩

instance : Inhabited Instant := ⟨epoch⟩

/-- The instant of a number of seconds and nanoseconds since the epoch. -/
def ofParts (seconds : Int) (nanos : Nat) : Instant := ⟨seconds * 1000000000 + nanos⟩

/-- Whole seconds since the epoch, rounded down. -/
def seconds (t : Instant) : Int := t.nanos / 1000000000

/-- Nanoseconds since the last whole second. -/
def subsecond (t : Instant) : Nat := (t.nanos % 1000000000).toNat

instance : LE Instant := ⟨fun a b => a.nanos ≤ b.nanos⟩
instance : LT Instant := ⟨fun a b => a.nanos < b.nanos⟩
instance (a b : Instant) : Decidable (a ≤ b) := inferInstanceAs (Decidable (a.nanos ≤ b.nanos))
instance (a b : Instant) : Decidable (a < b) := inferInstanceAs (Decidable (a.nanos < b.nanos))

/-- The instant a number of seconds later. -/
def addSeconds (t : Instant) (n : Nat) : Instant := ⟨t.nanos + n * 1000000000⟩

/-- The instant a number of nanoseconds later. -/
def addNanos (t : Instant) (n : Nat) : Instant := ⟨t.nanos + n⟩

/-- Whole seconds from one instant to a later one, zero if it is not later. -/
def secondsSince (later earlier : Instant) : Nat :=
  ((later.nanos - earlier.nanos) / 1000000000).toNat

/-- The first instant of the year -262143. -/
def first : Instant := ofParts (-8334601228800) 0

/-- The last instant of the year 262142. -/
def last : Instant := ofParts 8210266876799 999999999

/-- Within the years -262143 to 262142. -/
def IsRepresentable (t : Instant) : Prop := first ≤ t ∧ t ≤ last

instance (t : Instant) : Decidable t.IsRepresentable :=
  inferInstanceAs (Decidable (first ≤ t ∧ t ≤ last))

/-- The instant a number of seconds later, if it is representable. -/
def addSeconds? (t : Instant) (n : Nat) : Option Instant :=
  if (t.addSeconds n).IsRepresentable then some (t.addSeconds n) else none

theorem le_def {a b : Instant} : a ≤ b ↔ a.nanos ≤ b.nanos := Iff.rfl

theorem lt_def {a b : Instant} : a < b ↔ a.nanos < b.nanos := Iff.rfl

theorem ofParts_seconds_subsecond (t : Instant) : ofParts t.seconds t.subsecond = t := by
  cases t
  simp only [ofParts, seconds, subsecond, mk.injEq]
  omega

theorem subsecond_lt (t : Instant) : t.subsecond < perSecond := by
  simp only [subsecond, perSecond]
  omega

end Instant

end MessageBroker
