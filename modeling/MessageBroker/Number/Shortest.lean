import MessageBroker.Number.Binary64

/-! # Shortest decimal form

The fewest decimal digits that read back as a given binary number: among the decimals of 1, 2, and
so on up to 17 digits, the first that rounds to the number, and of two such the nearer one. The text
is positional while the first digit stands for a power of ten from -5 to 15. -/

namespace MessageBroker.Binary64

/-- The sign of `d * 10 ^ k` minus a quarter of `x * 2 ^ e`. -/
def compareDecimal (d : Nat) (k : Int) (x : Nat) (e : Int) : Ordering :=
  compare (4 * (d * Nat.pow 10 k.toNat * Nat.pow 2 (-e).toNat))
    (x * Nat.pow 2 e.toNat * Nat.pow 10 (-k).toNat)

/-- Whether `d * 10 ^ k` rounds to the number. -/
def readsBack (f : Binary64) (d : Nat) (k : Int) : Bool :=
  let low := if f.mantissa = Nat.pow 2 52 ∧ minExponent < f.exponent then 4 * f.mantissa - 1
    else 4 * f.mantissa - 2
  let inside (o : Ordering) := o == .lt || (o == .eq && f.mantissa % 2 == 0)
  inside (compareDecimal d k low f.exponent).swap
    && inside (compareDecimal d k (4 * f.mantissa + 2) f.exponent)

/-- How often a fraction below one can be multiplied by ten, at most `fuel` times, before it
reaches one. -/
def leadingZeros : Nat → Nat → Nat → Nat
  | 0, _, _ => 0
  | fuel + 1, num, den => if den ≤ num * 10 then 0 else leadingZeros fuel (num * 10) den + 1

/-- The exponent `x` with `10 ^ x ≤ f < 10 ^ (x + 1)`, for a positive number. -/
def decimalExponent (f : Binary64) : Int :=
  let (num, den) := f.ratio
  if den ≤ num then (Nat.toDigits 10 (num / den)).length - 1
  else -(leadingZeros 400 num den : Int) - 1

/-- The best decimal of `n` digits whose first stands for `10 ^ x`, if it reads back. -/
def decimalOf? (f : Binary64) (x : Int) (n : Nat) : Option (Nat × Int) :=
  let k := x + 1 - n
  let (num, den) := f.ratio
  let num := num * Nat.pow 10 (-k).toNat
  let den := den * Nat.pow 10 k.toNat
  let d := num / den
  match f.readsBack d k, f.readsBack (d + 1) k with
  | true, true => some (if 2 * (num % den) ≤ den then (d, k) else (d + 1, k))
  | true, false => some (d, k)
  | false, true => some (d + 1, k)
  | false, false => none

/-- The shortest decimal that reads back as a positive number. -/
def shortest (f : Binary64) : Nat × Int :=
  let x := f.decimalExponent
  ((List.range 17).findSome? fun n => f.decimalOf? x (n + 1)).getD (0, 0)

/-- The text of a number. -/
def text (f : Binary64) : String :=
  if f.mantissa = 0 then "0.0"
  else
    let (d, k) := f.shortest
    let all := Nat.toDigits 10 d
    let x := k + all.length - 1
    let digits := (all.reverse.dropWhile (· = '0')).reverse
    let n := digits.length
    let zeros (m : Int) := List.replicate m.toNat '0'
    String.ofList <|
      if -5 ≤ x ∧ x ≤ 15 then
        if n ≤ x + 1 then digits ++ zeros (x + 1 - n) ++ ['.', '0']
        else if 0 ≤ x then digits.take (x + 1).toNat ++ ['.'] ++ digits.drop (x + 1).toNat
        else ['0', '.'] ++ zeros (-x - 1) ++ digits
      else
        digits.take 1 ++ (if n = 1 then [] else ['.'] ++ digits.drop 1)
          ++ ['e', if x < 0 then '-' else '+'] ++ Nat.toDigits 10 x.natAbs

end MessageBroker.Binary64
