/-! # UTF-8 in untrusted bytes

`ofBytes?` reads well-formed bytes only. `lossy` reads any bytes: each longest run that starts a
character but does not complete it, and each byte that starts none, becomes one replacement
character. -/

namespace MessageBroker.Text

/-- The text whose UTF-8 form the bytes are. -/
def ofBytes? (bytes : List UInt8) : Option String :=
  String.fromUTF8? ⟨bytes.toArray⟩

/-- The sign for what is no character. -/
def replacement : Char := Char.ofNat 0xFFFD

/-- Whether a byte continues a character. -/
def isTail (b : UInt8) : Bool := 0x80 ≤ b && b ≤ 0xBF

/-- Whether `b` may follow `a`, the first byte of a character of three bytes. -/
def isSecondOfThree (a b : UInt8) : Bool :=
  (a == 0xE0 && 0xA0 ≤ b && b ≤ 0xBF) || (a == 0xED && 0x80 ≤ b && b ≤ 0x9F)
    || (0xE1 ≤ a && a ≤ 0xEF && a != 0xED && isTail b)

/-- Whether `b` may follow `a`, the first byte of a character of four bytes. -/
def isSecondOfFour (a b : UInt8) : Bool :=
  (a == 0xF0 && 0x90 ≤ b && b ≤ 0xBF) || (a == 0xF4 && 0x80 ≤ b && b ≤ 0x8F)
    || (0xF1 ≤ a && a ≤ 0xF3 && isTail b)

/-- The character of its first byte's `bits` and its tail. -/
def charOf (bits : Nat) (tail : List UInt8) : Char :=
  Char.ofNat (tail.foldl (fun n b => n * 64 + b.toNat % 64) bits)

/-- The characters of bytes, with replacements for what is no character. -/
def lossyChars : List UInt8 → List Char
  | [] => []
  | a :: r =>
    if a < 0x80 then Char.ofNat a.toNat :: lossyChars r
    else match r with
      | [] => [replacement]
      | b :: r' =>
        if 0xC2 ≤ a && a ≤ 0xDF && isTail b then charOf (a.toNat % 32) [b] :: lossyChars r'
        else if isSecondOfThree a b then
          match r' with
          | [] => [replacement]
          | c :: r'' =>
            if isTail c then charOf (a.toNat % 16) [b, c] :: lossyChars r''
            else replacement :: lossyChars (c :: r'')
        else if isSecondOfFour a b then
          match r' with
          | [] => [replacement]
          | c :: r'' =>
            if isTail c then
              match r'' with
              | [] => [replacement]
              | d :: r''' =>
                if isTail d then charOf (a.toNat % 8) [b, c, d] :: lossyChars r'''
                else replacement :: lossyChars (d :: r''')
            else replacement :: lossyChars (c :: r'')
        else replacement :: lossyChars (b :: r')

/-- The text of bytes, with replacements for what is no character. -/
def lossy (bytes : List UInt8) : String := String.ofList (lossyChars bytes)

end MessageBroker.Text
