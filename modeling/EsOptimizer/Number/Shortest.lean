import EsOptimizer.Number.Fraction

/-!
# Shortest decimal digits

The fewest decimal digits that still identify a finite positive number, and of those the nearest.

A number `m * 2 ^ q` owns the reals that round to it: the interval between the midpoints to its two
neighbours, ends included if `m` is even. `digits` tries grids of one, two, … seventeen decimal
digits. On each grid only the two points next to the value can lie in the interval, so it is enough
to test those, in whole-number arithmetic.
-/

namespace EsOptimizer
namespace Number

/-- The written form `0.d₁d₂… * 10 ^ point` of a positive number: its digits, and where the point
stands relative to the first of them. -/
structure Decimal where
  digits : List Nat
  point : Int
deriving DecidableEq, Repr

/-- The exponent `k` with `10 ^ (k - 1) ≤ a < 10 ^ k`. The sizes of numerator and denominator
give it up to one, and a comparison decides. -/
def decimalPoint (a : Fraction) : Int :=
  let k : Int := (Nat.toDigits 10 a.num).length - (Nat.toDigits 10 a.den).length
  if (Fraction.decimal 1 k).le a then k + 1 else k

/-- The reals that round to a finite positive number: lower end, upper end, and whether the ends
belong to it. The gap below a power of two is half as wide. -/
def roundingInterval (x : Number) : Fraction × Fraction × Bool :=
  let m := x.significand
  let q := x.exponent - 2
  let below := if x.fraction = 0 ∧ 1 < x.biasedExponent then 1 else 2
  (Fraction.scaled (4 * m - below) q, Fraction.scaled (4 * m + 2) q, m % 2 == 0)

/-- The point of the grid of spacing `10 ^ e` that stands for `x`, if one rounds to it. Of two such
points the nearer one wins, and the upper one if both are equally near. -/
def onGrid (x : Number) (e : Int) : Option Nat :=
  let v := Fraction.scaled x.significand x.exponent
  let (low, high, closed) := x.roundingInterval
  let inside (d : Nat) : Bool :=
    let p := Fraction.decimal d e
    if closed then low.le p && p.le high else low.lt p && p.lt high
  -- `v / 10 ^ e`, as one fraction
  let num := v.num * Nat.pow 10 (-e).toNat
  let den := v.den * Nat.pow 10 e.toNat
  let down := num / den
  match inside down, inside (down + 1) with
  | true, true => if 2 * (num % den) < den then some down else some (down + 1)
  | true, false => some down
  | false, true => some (down + 1)
  | false, false => none

/-- Decimal digits of a whole number, most significant first. -/
def digitsOf (n : Nat) : List Nat := (Nat.toDigits 10 n).map fun c => c.toNat - '0'.toNat

/-- Drops the zeros at the end of a digit list. -/
def trimZeros (ds : List Nat) : List Nat := (ds.reverse.dropWhile (· == 0)).reverse

/-- The shortest decimal that rounds to a finite positive number. Seventeen digits always
suffice. -/
def shortest (x : Number) : Decimal :=
  let point := decimalPoint (Fraction.scaled x.significand x.exponent)
  let hit := (List.range 17).findSome? fun i => x.onGrid (point - (i + 1 : Nat)) |>.map fun d => (d, i)
  match hit with
  | none => ⟨[], 0⟩
  | some (d, i) =>
    let ds := digitsOf d
    -- rounding up may reach the next power of ten, and so one digit more than the grid has
    ⟨trimZeros ds, point + (ds.length - (i + 1 : Nat) : Int)⟩

end Number
end EsOptimizer
