/-! # Blanks

The characters with the property White_Space. -/

namespace MessageBroker.Text

/-- Whether a character is a blank. -/
def isBlank (c : Char) : Bool :=
  let n := c.toNat
  (9 ≤ n && n ≤ 13) || n = 0x20 || n = 0x85 || n = 0xA0 || n = 0x1680
    || (0x2000 ≤ n && n ≤ 0x200A) || n = 0x2028 || n = 0x2029 || n = 0x202F || n = 0x205F
    || n = 0x3000

/-- The characters without leading blanks. -/
def trimStart (l : List Char) : List Char := l.dropWhile isBlank

/-- The characters without trailing blanks. -/
def trimEnd (l : List Char) : List Char := (l.reverse.dropWhile isBlank).reverse

theorem trimStart_cons {c : Char} (h : isBlank c = false) (l : List Char) :
    trimStart (c :: l) = c :: l := by
  simp [trimStart, h]

end MessageBroker.Text
