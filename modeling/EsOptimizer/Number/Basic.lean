/-!
# Numbers

A number of the language is a double held as its bit pattern. There are two patterns for "not a
number", one with the sign bit set: no program can tell them apart, but a minus sign turns one into
the other, and so it shows where a value that is not a number is written out.

`Number.same` is the *same value* relation: `NaN` is the same as itself, and the two zeros differ.
The language's own comparisons, for which `NaN` differs from everything and the zeros agree, are
`Number.eq` and `Number.lt`.

Arithmetic that rounds goes through `Float`. Whatever is exact (sign, truncation, remainder,
conversion to 32 bits) is read off the decoded pattern, as whole-number arithmetic.
-/

namespace EsOptimizer

/-- A double, as its bit pattern. -/
structure Number where
  bits : UInt64
deriving DecidableEq, Repr

namespace Number

/-! ## Decoding -/

/-- The eleven exponent bits. -/
def biasedExponent (x : Number) : Nat := x.bits.toNat / Nat.pow 2 52 % Nat.pow 2 11

/-- The fifty-two bits below the exponent. -/
def fraction (x : Number) : Nat := x.bits.toNat % Nat.pow 2 52

/-- Whether the sign bit is set, which it may also be for a zero and for what is not a number. -/
def isNegative (x : Number) : Bool := Nat.pow 2 63 ≤ x.bits.toNat

def isNaN (x : Number) : Bool := x.biasedExponent == 2047 && x.fraction != 0

def isInfinite (x : Number) : Bool := x.biasedExponent == 2047 && x.fraction == 0

def isFinite (x : Number) : Bool := x.biasedExponent != 2047

/-- Whether the number is one of the two zeros. -/
def isZero (x : Number) : Bool := x.biasedExponent == 0 && x.fraction == 0

/-- The whole number `m` of a finite number's magnitude `m * 2 ^ exponent`. -/
def significand (x : Number) : Nat :=
  if x.biasedExponent = 0 then x.fraction else x.fraction + Nat.pow 2 52

/-- The power of two of a finite number's magnitude `significand * 2 ^ exponent`. -/
def exponent (x : Number) : Int := (max x.biasedExponent 1 : Nat) - 1075

/-! ## Building -/

/-- Not a number, with the sign bit clear. -/
def nan : Number := ⟨0x7ff8000000000000⟩

def infinity : Number := ⟨0x7ff0000000000000⟩

def zero : Number := ⟨0⟩

/-- The number with the given pattern; every pattern that is not a number gives `nan`. -/
def ofBits (bits : UInt64) : Number :=
  if (⟨bits⟩ : Number).isNaN then nan else ⟨bits⟩

def ofFloat (x : Float) : Number := ofBits x.toBits

def toFloat (x : Number) : Float := Float.ofBits x.bits

/-- The number nearest to `n`. -/
def ofNat (n : Nat) : Number := ofFloat (Float.ofNat n)

def ofBool (b : Bool) : Number := ofNat b.toNat

/-- The other sign. -/
def neg (x : Number) : Number := ⟨x.bits ^^^ 0x8000000000000000⟩

/-- The sign bit cleared. -/
def abs (x : Number) : Number := if x.isNegative then x.neg else x

/-- What an operation gives that has no result: not a number, with the sign bit set. -/
def invalid : Number := nan.neg

/-- `x`, negated if asked. -/
def withSign (negative : Bool) (x : Number) : Number := if negative then x.neg else x

/-- The number nearest to `n`. -/
def ofInt (n : Int) : Number := withSign (n < 0) (ofNat n.natAbs)

/-- The number `m * 2 ^ e`, for a pair that a double can hold. -/
def ofScaled (m : Nat) (e : Int) : Number := ofFloat ((Float.ofNat m).scaleB e)

/-! ## Comparison -/

/-- Whether two numbers are the same value: whatever is not a number is the same as `nan`, and the
two zeros differ. -/
def same (x y : Number) : Bool := (x.isNaN && y.isNaN) || x == y

/-- The magnitude as a whole number that grows with it, signed. Both zeros have rank zero. -/
def rank (x : Number) : Int :=
  let magnitude : Int := (x.bits.toNat % Nat.pow 2 63 : Nat)
  if x.isNegative then -magnitude else magnitude

/-- Equality of the language: `nan` differs from itself and the zeros agree. -/
def eq (x y : Number) : Bool := !x.isNaN && !y.isNaN && x.rank == y.rank

/-- Order of the language: false whenever `nan` takes part. -/
def lt (x y : Number) : Bool := !x.isNaN && !y.isNaN && x.rank < y.rank

/-- `x ≤ y`, and false whenever `nan` takes part. -/
def le (x y : Number) : Bool := !x.isNaN && !y.isNaN && x.rank ≤ y.rank

/-- The total order used for listings: by size, `-0` before `0`, and `nan` last. -/
def listedBefore (x y : Number) : Bool :=
  if x.isNaN then false
  else if y.isNaN then true
  else x.rank < y.rank || (x.rank == y.rank && x.isNegative && !y.isNegative)

/-! ## Arithmetic -/

/-- The outcome of an operation whose operands are numbers. -/
def ofResult (x : Float) : Number :=
  let r := ofFloat x
  if r.isNaN then invalid else r

/-- An operation on two operands. If one of them is not a number it is passed on, the first one
before the second. -/
def arith (f : Float → Float → Float) (x y : Number) : Number :=
  if x.isNaN then x
  else if y.isNaN then y
  else ofResult (f x.toFloat y.toFloat)

def add (x y : Number) : Number := arith (· + ·) x y

def sub (x y : Number) : Number := arith (· - ·) x y

def mul (x y : Number) : Number := arith (· * ·) x y

def div (x y : Number) : Number := arith (· / ·) x y

def sqrt (x : Number) : Number := if x.isNaN then x else ofResult x.toFloat.sqrt

/-- The whole part of a finite magnitude. -/
def wholePart (x : Number) : Nat :=
  if 0 ≤ x.exponent then x.significand * Nat.pow 2 x.exponent.toNat
  else x.significand / Nat.pow 2 (-x.exponent).toNat

/-- Whether a finite number has nothing after the point. -/
def isWhole (x : Number) : Bool :=
  0 ≤ x.exponent || x.significand % Nat.pow 2 (-x.exponent).toNat == 0

/-- Whether a number is whole and odd. -/
def isOdd (x : Number) : Bool := x.isFinite && x.isWhole && x.wholePart % 2 == 1

/-- `x` to the power `y`, except that an exponent that is not a number, and an infinite power of
one, give `nan`. A base that is not a number is passed on; an odd power of one whose sign bit is set
has it clear. -/
def pow (x y : Number) : Number :=
  if y.isNaN || (x.abs == ofNat 1 && y.isInfinite) then nan
  else if x.isNaN && !y.isZero then (if y.isOdd then x.abs else x)
  else ofResult (x.toFloat.pow y.toFloat)

/-- Drops what is after the point and keeps the sign, also of a zero result. -/
def trunc (x : Number) : Number :=
  if !x.isFinite || x.isWhole then x
  else withSign x.isNegative (ofNat x.wholePart)

/-- The greatest whole number that is not above `x`. -/
def floor (x : Number) : Number :=
  if !x.isFinite || x.isWhole then x
  else if x.isNegative then (ofNat (x.wholePart + 1)).neg
  else ofNat x.wholePart

/-- The least whole number that is not below `x`. -/
def ceil (x : Number) : Number := x.neg.floor.neg

/-- The nearest whole number, a half going up; a negative number that rounds to zero gives `-0`. -/
def round (x : Number) : Number :=
  if !x.isFinite || x.isZero then x
  else
    let down := x.floor
    let rounded := if (ofScaled 1 (-1)).le (x.sub down) then down.add (ofNat 1) else down
    if rounded.isZero && x.isNegative then zero.neg else rounded

/-- `-1`, `1`, or the operand itself if it is a zero or not a number. -/
def signum (x : Number) : Number :=
  if x.isZero || x.isNaN then x else withSign x.isNegative (ofNat 1)

/-- The remainder of the division that truncates; it has the sign of the dividend. -/
def rem (x y : Number) : Number :=
  if x.isNaN || y.isNaN || x.isInfinite || y.isZero then nan
  else if y.isInfinite then x
  else
    let e := min x.exponent y.exponent
    let dividend := x.significand * Nat.pow 2 (x.exponent - e).toNat
    let divisor := y.significand * Nat.pow 2 (y.exponent - e).toNat
    withSign x.isNegative (ofScaled (dividend % divisor) e)

/-! ## Words of 32 bits -/

/-- The whole part modulo `2 ^ 32`; zero for numbers that are not finite. -/
def toUInt32 (x : Number) : UInt32 :=
  if !x.isFinite then 0
  else if x.isNegative then 0 - UInt32.ofNat x.wholePart
  else UInt32.ofNat x.wholePart

/-- The whole part modulo `2 ^ 32`, read as a signed word. -/
def toInt32 (x : Number) : Int32 := x.toUInt32.toInt32

def ofUInt32 (w : UInt32) : Number := ofNat w.toNat

def ofInt32 (w : Int32) : Number := ofInt w.toInt

end Number

end EsOptimizer
