import MessageBroker.Json.Problem
import MessageBroker.Text.Percent

/-! # Lexemes of JSON

Blanks, words, texts and numbers at the start of some bytes. A reader answers what it read and the
bytes that follow. Texts are read in two ways: `readText` decodes one, `skipText` passes over one
and leaves its characters unchecked. A natural number below `2 ^ 64` and a negative one down to
`-2 ^ 63` are read exactly, any other number as a binary fraction. -/

namespace MessageBroker.Json

/-- Whether a byte is a blank. -/
def isBlank (b : UInt8) : Bool := b == 32 || b == 10 || b == 9 || b == 13

/-- The bytes after leading blanks. -/
def skipBlanks (l : List UInt8) : List UInt8 := l.dropWhile isBlank

/-- Whether a byte is a decimal digit. -/
def isDigit (b : UInt8) : Bool := 48 ≤ b && b ≤ 57

/-- Whether the next byte is a given character. -/
def startsWith (c : Char) : List UInt8 → Bool
  | [] => false
  | b :: _ => b == c.toUInt8

/-- Whether the next byte is a decimal digit. -/
def startsWithDigit : List UInt8 → Bool
  | [] => false
  | b :: _ => isDigit b

/-- The bytes after the rest of a word. -/
def readWord : List Char → List UInt8 → Except Failure (List UInt8)
  | [], l => .ok l
  | _ :: _, [] => fail .endInValue []
  | c :: cs, b :: r => if b == c.toUInt8 then readWord cs r else fail .expectedWord r

/-! ### Texts -/

/-- The byte that a backslash and a letter stand for. -/
def simpleEscape? (b : UInt8) : Option UInt8 :=
  if b == '"'.toUInt8 || b == '\\'.toUInt8 || b == '/'.toUInt8 then some b
  else if b == 'b'.toUInt8 then some 8
  else if b == 'f'.toUInt8 then some 12
  else if b == 'n'.toUInt8 then some 10
  else if b == 'r'.toUInt8 then some 13
  else if b == 't'.toUInt8 then some 9
  else none

/-- The number that four hexadecimal digits name. -/
def hexUnit? (a b c d : UInt8) : Option Nat :=
  match Text.Percent.octet? a b, Text.Percent.octet? c d with
  | some high, some low => some (high.toNat * 256 + low.toNat)
  | _, _ => none

/-- The first half of a pair of units for one character. -/
def isLead (n : Nat) : Bool := 0xD800 ≤ n && n ≤ 0xDBFF

/-- The second half of a pair of units for one character. -/
def isTrail (n : Nat) : Bool := 0xDC00 ≤ n && n ≤ 0xDFFF

/-- Bytes in reverse, with those of a character in front. -/
def pushChar (n : Nat) (read : List UInt8) : List UInt8 :=
  (String.utf8EncodeChar (Char.ofNat n)).reverse ++ read

/-- The text up to its closing quote, after the bytes already read, which are in reverse. -/
def readText (read : List UInt8) : List UInt8 → Except Failure (String × List UInt8)
  | [] => fail .endInText []
  | b :: r =>
    if b == '"'.toUInt8 then
      match Text.ofBytes? read.reverse with
      | some s => .ok (s, r)
      | none => fail .invalidCharacter (b :: r)
    else if b == '\\'.toUInt8 then
      match r with
      | [] => fail .endInText []
      | e :: r =>
        match simpleEscape? e with
        | some c => readText (c :: read) r
        | none =>
          if e == 'u'.toUInt8 then
            match r with
            | a :: b :: c :: d :: r =>
              match hexUnit? a b c d with
              | none => fail .invalidEscape r
              | some n =>
                if isTrail n then fail .loneSurrogate r
                else if isLead n then
                  match r with
                  | [] => fail .endInText []
                  | s :: r =>
                    if s == '\\'.toUInt8 then
                      match r with
                      | [] => fail .endInText []
                      | u :: r =>
                        if u == 'u'.toUInt8 then
                          match r with
                          | a :: b :: c :: d :: r =>
                            match hexUnit? a b c d with
                            | none => fail .invalidEscape r
                            | some m =>
                              if isTrail m then
                                let n := 0x10000 + (n - 0xD800) * 1024 + (m - 0xDC00)
                                readText (pushChar n read) r
                              else fail .loneSurrogate r
                          | _ => fail .endInText []
                        else fail .unfinishedSurrogate r
                    else fail .unfinishedSurrogate r
                else readText (pushChar n read) r
            | _ => fail .endInText []
          else fail .invalidEscape r
    else if b < 32 then fail .controlCharacter r
    else readText (b :: read) r

/-- The bytes after the closing quote of a text. -/
def skipText : List UInt8 → Except Failure (List UInt8)
  | [] => fail .endInText []
  | b :: r =>
    if b == '"'.toUInt8 then .ok r
    else if b == '\\'.toUInt8 then
      match r with
      | [] => fail .endInText []
      | e :: r =>
        if (simpleEscape? e).isSome then skipText r
        else if e == 'u'.toUInt8 then
          match r with
          | a :: b :: c :: d :: r =>
            if (hexUnit? a b c d).isSome then skipText r else fail .invalidEscape r
          | _ => fail .endInText []
        else fail .invalidEscape r
    else if b < 32 then fail .controlCharacter (b :: r)
    else skipText r

/-! ### Numbers -/

/-- A number as it was written. -/
inductive Number
  | natural (n : Nat)
  | negative (n : Nat)
  | float (negative : Bool) (magnitude : Binary64)

/-- A number where another kind of value was expected. -/
def Number.found : Number → Found
  | .natural n => .integer n
  | .negative n => .integer (-n)
  | .float down f => .float down f

/-- The greatest significand. -/
def maxSignificand : Nat := 18446744073709551615

/-- The greatest written exponent. -/
def maxWrittenExponent : Nat := 2147483647

/-- A significand extended by digits while it stays in range, how many they were, and the rest. -/
def takeSignificand : Nat → Nat → List UInt8 → Nat × Nat × List UInt8
  | n, count, [] => (n, count, [])
  | n, count, b :: r =>
    if isDigit b && n * 10 + (b.toNat - 48) ≤ maxSignificand then
      takeSignificand (n * 10 + (b.toNat - 48)) (count + 1) r
    else (n, count, b :: r)

/-- The value of a significand and exponent. -/
def float (negative : Bool) (n : Nat) (e : Int) (rest : List UInt8) :
    Except Failure (Number × List UInt8) :=
  match Binary64.ofDecimal n e with
  | some f => .ok (.float negative f, rest)
  | none => fail .numberOutOfRange rest

/-- The digits of an exponent after its first one. -/
def readExponentDigits (negative : Bool) (n : Nat) (start : Int) (down : Bool) :
    Nat → List UInt8 → Except Failure (Number × List UInt8)
  | e, [] => float negative n (if down then start - e else start + e) []
  | e, b :: r =>
    if isDigit b then
      if e * 10 + (b.toNat - 48) ≤ maxWrittenExponent then
        readExponentDigits negative n start down (e * 10 + (b.toNat - 48)) r
      else if n ≠ 0 ∧ down = false then fail .numberOutOfRange r
      else .ok (.float negative .zero, r.dropWhile isDigit)
    else float negative n (if down then start - e else start + e) (b :: r)

/-- The exponent after its letter, which scales a significand. -/
def readExponent (negative : Bool) (n : Nat) (start : Int) (l : List UInt8) :
    Except Failure (Number × List UInt8) :=
  let down := startsWith '-' l
  match if down || startsWith '+' l then l.drop 1 else l with
  | [] => fail .endInValue []
  | b :: r =>
    if isDigit b then readExponentDigits negative n start down (b.toNat - 48) r
    else fail .invalidNumber r

/-- A value after its digits: with an exponent or without. -/
def readScale (negative : Bool) (n : Nat) (e : Int) (l : List UInt8) :
    Except Failure (Number × List UInt8) :=
  if startsWith 'e' l || startsWith 'E' l then readExponent negative n e (l.drop 1)
  else float negative n e l

/-- The digits after a decimal point. Those that the significand cannot take are passed over. -/
def readFraction (negative : Bool) (n : Nat) (e : Int) (l : List UInt8) :
    Except Failure (Number × List UInt8) :=
  match takeSignificand n 0 l with
  | (n, count, rest) =>
    if startsWithDigit rest then readScale negative n (e - count) (rest.dropWhile isDigit)
    else if count = 0 then
      if rest = [] then fail .endInValue [] else failNext .invalidNumber rest
    else readScale negative n (e - count) rest

/-- What follows the integer part of a number. -/
def readAfterInteger (negative : Bool) (n : Nat) (l : List UInt8) :
    Except Failure (Number × List UInt8) :=
  if startsWithDigit l then
    let rest := l.dropWhile isDigit
    let e : Int := l.length - rest.length
    if startsWith '.' rest then readFraction negative n e (rest.drop 1)
    else readScale negative n e rest
  else if startsWith '.' l then readFraction negative n 0 (l.drop 1)
  else if startsWith 'e' l || startsWith 'E' l then readExponent negative n 0 (l.drop 1)
  else if negative then
    if n = 0 ∨ 9223372036854775808 < n then float true n 0 l else .ok (.negative n, l)
  else .ok (.natural n, l)

/-- The number after its sign. -/
def readNumber (negative : Bool) : List UInt8 → Except Failure (Number × List UInt8)
  | [] => fail .endInValue []
  | b :: r =>
    if b == '0'.toUInt8 then
      if startsWithDigit r then failNext .invalidNumber r else readAfterInteger negative 0 r
    else if isDigit b then
      match takeSignificand (b.toNat - 48) 1 r with
      | (n, _, rest) => readAfterInteger negative n rest
    else fail .invalidNumber r

/-- The bytes after an exponent, from behind its letter. -/
def skipExponent (l : List UInt8) : Except Failure (List UInt8) :=
  match if startsWith '-' l || startsWith '+' l then l.drop 1 else l with
  | [] => fail .invalidNumber []
  | b :: r => if isDigit b then .ok (r.dropWhile isDigit) else fail .invalidNumber r

/-- The bytes after a number, from behind its sign. -/
def skipNumber (l : List UInt8) : Except Failure (List UInt8) := do
  let l ← match l with
    | [] => fail .invalidNumber []
    | b :: r =>
      if b == '0'.toUInt8 then
        if startsWithDigit r then failNext .invalidNumber r else .ok r
      else if isDigit b then .ok (r.dropWhile isDigit)
      else fail .invalidNumber r
  if startsWith '.' l then
    let r := l.drop 1
    if startsWithDigit r then
      let r := r.dropWhile isDigit
      if startsWith 'e' r || startsWith 'E' r then skipExponent (r.drop 1) else .ok r
    else failNext .invalidNumber r
  else if startsWith 'e' l || startsWith 'E' l then skipExponent (l.drop 1)
  else .ok l

end MessageBroker.Json
