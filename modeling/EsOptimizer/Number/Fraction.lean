import EsOptimizer.Number.Basic

/-!
# Fractions

Fractions of whole numbers, and the number nearest to one.

The pattern of a number that is not negative grows by one from each number to the next. With
`m * 2 ^ q` for the fraction and `q` the exponent that numbers of its size have, the pattern is
`(q + 1074) * 2 ^ 52 + m`, also where rounding takes `m` to the next power of two.
-/

namespace EsOptimizer
namespace Number

/-- A fraction that is not negative, with the comparison that multiplies across. -/
structure Fraction where
  num : Nat
  den : Nat

namespace Fraction

def le (a b : Fraction) : Bool := a.num * b.den ≤ b.num * a.den

def lt (a b : Fraction) : Bool := a.num * b.den < b.num * a.den

/-- `n * 2 ^ e`. -/
def scaled (n : Nat) (e : Int) : Fraction := ⟨n * Nat.pow 2 e.toNat, Nat.pow 2 (-e).toNat⟩

/-- `n * 10 ^ e`. -/
def decimal (n : Nat) (e : Int) : Fraction := ⟨n * Nat.pow 10 e.toNat, Nat.pow 10 (-e).toNat⟩

/-- The exponent `k` with `2 ^ k ≤ a < 2 ^ (k + 1)`, if `a` is positive. The sizes of numerator and denominator give it
up to one, and a comparison decides. -/
def binaryExponent (a : Fraction) : Int :=
  let k : Int := (Nat.log2 a.num : Int) - Nat.log2 a.den
  if (scaled 1 k).le a then k else k - 1

end Fraction

/-- `num / den` to the nearest whole number, a half going to the even neighbour. -/
def roundDiv (num den : Nat) : Nat :=
  let q := num / den
  let r := num % den
  if 2 * r < den then q
  else if 2 * r = den then q + q % 2
  else q + 1

/-- The number nearest to a fraction, which is infinite if the fraction is too large. Of two equally
near numbers the one with the even pattern wins. -/
def ofFraction (a : Fraction) : Number :=
  let q := max (a.binaryExponent - 52) (-1074)
  let m := roundDiv (a.num * Nat.pow 2 (-q).toNat) (a.den * Nat.pow 2 q.toNat)
  let pattern := (q + 1074).toNat * Nat.pow 2 52 + m
  if a.num = 0 then zero
  else if pattern < 2047 * Nat.pow 2 52 then ⟨UInt64.ofNat pattern⟩
  else infinity

/-- The number nearest to `mantissa * 10 ^ e`. The exponent is cut off where the result no longer
depends on it, so that absurdly long exponents cost nothing. -/
def ofDecimal (mantissa : Nat) (e : Int) : Number :=
  let digits : Int := (Nat.toDigits 10 mantissa).length
  if mantissa = 0 then zero
  else if digits + e < -400 then zero
  else if 400 < digits + e then infinity
  else ofFraction (Fraction.decimal mantissa e)

/-- `x * n`, rounded, for a number without a sign. -/
def timesNat (x : Number) (n : Nat) : Number :=
  if x.isInfinite then x else ofFraction (Fraction.scaled (x.significand * n) x.exponent)

/-- `x + n`, rounded, for a number without a sign. -/
def plusNat (x : Number) (n : Nat) : Number :=
  if x.isInfinite then x
  else
    let v := Fraction.scaled x.significand x.exponent
    ofFraction ⟨v.num + n * v.den, v.den⟩

end Number
end EsOptimizer
