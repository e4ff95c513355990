/-! # Classes of characters by runs

A class of characters is given by the lengths of the runs of code points that are alternately
outside and inside of it, from the code point 0 on. -/

namespace MessageBroker.Text

/-- Whether a code point is in a run of the class, the first run being inside or not. -/
def isInRun (inside : Bool) (code : Nat) : List Nat → Bool
  | [] => false
  | n :: r => if code < n then inside else isInRun (!inside) (code - n) r

/-- Whether a character is in the class of some runs, the first of which is outside. -/
def isInRuns (runs : List Nat) (c : Char) : Bool := isInRun false c.toNat runs

end MessageBroker.Text
