/-! # Binary floating point

Nonnegative numbers with a mantissa of 53 binary digits and exponents from -1074 to 971. `ofRatio`
rounds a fraction to the nearest such number, of two equally near ones to the one with the even
mantissa; products, quotients and decimal scaling are the exact ones, rounded. -/

namespace MessageBroker

/-- The number `mantissa * 2 ^ exponent`. -/
structure Binary64 where
  mantissa : Nat
  exponent : Int
  deriving DecidableEq

namespace Binary64

/-- The least exponent. -/
def minExponent : Int := -1074

/-- The greatest exponent. -/
def maxExponent : Int := 971

def zero : Binary64 := ⟨0, minExponent⟩

/-- Numerator and denominator of a number. -/
def ratio (f : Binary64) : Nat × Nat :=
  (f.mantissa * Nat.pow 2 f.exponent.toNat, Nat.pow 2 (-f.exponent).toNat)

/-- The nearest natural number to a fraction, of two the even one. -/
def roundDiv (num den : Nat) : Nat :=
  let q := num / den
  let r := num % den
  if 2 * r < den then q else if den < 2 * r then q + 1 else q + q % 2

/-- The nearest number to a fraction, unless the fraction is too large. -/
def ofRatio (num den : Nat) : Option Binary64 :=
  if num = 0 then some zero
  else
    let guess : Int := (Nat.log2 num : Int) - Nat.log2 den - 53
    let scaled (e : Int) : Nat × Nat := (num * Nat.pow 2 (-e).toNat, den * Nat.pow 2 e.toNat)
    let tooFine := Nat.pow 2 53 ≤ (scaled guess).1 / (scaled guess).2
    let e := max minExponent (if tooFine then guess + 1 else guess)
    let m := roundDiv (scaled e).1 (scaled e).2
    let f : Binary64 := if m = Nat.pow 2 53 then ⟨Nat.pow 2 52, e + 1⟩ else ⟨m, e⟩
    if maxExponent < f.exponent then none else some f

/-- The rounded product. -/
def mul (f g : Binary64) : Option Binary64 :=
  ofRatio (f.ratio.1 * g.ratio.1) (f.ratio.2 * g.ratio.2)

/-- The rounded quotient. -/
def div (f g : Binary64) : Option Binary64 :=
  ofRatio (f.ratio.1 * g.ratio.2) (f.ratio.2 * g.ratio.1)

/-- The nearest number to a natural number. -/
def ofNat (n : Nat) : Option Binary64 := ofRatio n 1

/-- The number times a power of ten of at most 308 in one rounded step, and a further step for each
further 308 that a negative power has. -/
def scale : Nat → Binary64 → Int → Option Binary64
  | 0, f, _ => some f
  | steps + 1, f, e =>
    if e.natAbs ≤ 308 then
      (ofNat (Nat.pow 10 e.natAbs)).bind fun p => if 0 ≤ e then f.mul p else f.div p
    else if f.mantissa = 0 then some f
    else if 0 ≤ e then none
    else (ofNat (Nat.pow 10 308)).bind fun p => (f.div p).bind fun g => scale steps g (e + 308)

/-- The number of a decimal numeral `significand * 10 ^ e`, unless it is too large. -/
def ofDecimal (significand : Nat) (e : Int) : Option Binary64 :=
  (ofNat significand).bind fun f => scale 4 f e

end Binary64

end MessageBroker
