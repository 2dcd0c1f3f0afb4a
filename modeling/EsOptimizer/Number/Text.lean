import EsOptimizer.Number.Shortest

/-!
# Number text

The text of a number in the language: shortest digits, positional while the point stands within
twenty-one digits, and with an exponent otherwise. `toFixed` writes a chosen number of places.
-/

namespace EsOptimizer
namespace Number

/-- The character of a decimal digit. -/
def digitChar (d : Nat) : Char := Char.ofNat ('0'.toNat + d)

/-- Lays out the digits of a positive number: plain notation if the point stands at most
twenty-one places to the right of the first digit or at most five zeros to its left, and an
exponent with its sign otherwise. -/
def Decimal.layout (d : Decimal) : List Char :=
  let ds := d.digits.map digitChar
  let k : Int := ds.length
  let n := d.point
  if k ≤ n ∧ n ≤ 21 then ds ++ List.replicate (n - k).toNat '0'
  else if 0 < n ∧ n ≤ 21 then ds.take n.toNat ++ '.' :: ds.drop n.toNat
  else if -6 < n ∧ n ≤ 0 then '0' :: '.' :: List.replicate (-n).toNat '0' ++ ds
  else
    let e := Nat.toDigits 10 (n - 1).natAbs
    let sign := if n - 1 < 0 then '-' else '+'
    let mantissa := match ds with
      | [c] => [c]
      | c :: rest => c :: '.' :: rest
      | [] => []
    mantissa ++ 'e' :: sign :: e

/-- The text of a number. Both zeros are written `0`. -/
def toText (x : Number) : String :=
  if x.isNaN then "NaN"
  else if x.isZero then "0"
  else
    let magnitude := if x.isInfinite then "Infinity" else String.ofList x.abs.shortest.layout
    if x.isNegative then "-" ++ magnitude else magnitude

/-- A finite magnitude with exactly `places` digits after the point. -/
def fixedDigits (x : Number) (places : Nat) : List Char :=
  let v := Fraction.scaled x.significand x.exponent
  let ds := Nat.toDigits 10 (roundDiv (v.num * Nat.pow 10 places) v.den)
  let ds := List.replicate (places + 1 - ds.length) '0' ++ ds
  let whole := ds.take (ds.length - places)
  if places = 0 then whole else whole ++ '.' :: ds.drop (ds.length - places)

/-- The number written with `places` digits after the point, at most twenty. Where the scaled
number is an apparent tie there is no answer; numbers from `1e21` on are written as `toText`
does. A sign is written only in front of a result that is not zero. -/
def toFixed (x : Number) (places : Number) : Option String :=
  if !(zero.le places && places.le (ofNat 20)) then none
  else if x.isNaN then some "NaN"
  else if (ofDecimal 1 21).le x.abs then some x.toText
  else
    let places := places.wholePart
    let scaled := x.abs.mul (ofNat (Nat.pow 10 places))
    if (scaled.sub scaled.trunc).eq (ofScaled 1 (-1)) then none
    else
      let text := x.fixedDigits places
      let showsSign := x.lt zero && text.any fun c => c != '0' && c != '.'
      some (String.ofList (if showsSign then '-' :: text else text))

/-- The value of `c` as a digit of a base up to thirty-six, letters counting from ten in either
case. -/
def digitValue? (base : Nat) (c : Char) : Option Nat :=
  let v :=
    if '0' ≤ c ∧ c ≤ '9' then c.toNat - '0'.toNat
    else if 'a' ≤ c ∧ c ≤ 'z' then c.toNat - 'a'.toNat + 10
    else if 'A' ≤ c ∧ c ≤ 'Z' then c.toNat - 'A'.toNat + 10
    else base
  if v < base then some v else none

/-- Reads digits of a base by multiplying and adding, rounding after every digit. -/
def ofDigits (base : Nat) (ds : List Nat) : Number :=
  ds.foldl (fun acc d => (acc.timesNat base).plusNat d) zero

/-- The whole number that a list of decimal digits denotes. -/
def natOfDigits (cs : List Char) : Nat :=
  cs.foldl (fun acc c => acc * 10 + (c.toNat - '0'.toNat)) 0

/-- Whether `c` is one of the ten decimal digits. -/
def isDigit (c : Char) : Bool := '0' ≤ c && c ≤ '9'

/-- Reads an exponent mark with its digits at the end of a decimal; no mark means zero. -/
def readExponent? : List Char → Option Int
  | [] => some 0
  | c :: rest =>
    if c == 'e' || c == 'E' then
      let (negative, ds) := match rest with
        | '-' :: ds => (true, ds)
        | '+' :: ds => (false, ds)
        | ds => (false, ds)
      if ds.isEmpty || !ds.all isDigit then none
      else some (if negative then -(natOfDigits ds : Int) else natOfDigits ds)
    else none

/-- Reads an unsigned decimal: digits with at most one point among or around them, at least one
digit, and an optional exponent. Nothing else may follow. -/
def ofDecimalText? (cs : List Char) : Option Number :=
  let whole := cs.takeWhile isDigit
  let rest := cs.dropWhile isDigit
  let (part, rest) := match rest with
    | '.' :: after => (after.takeWhile isDigit, after.dropWhile isDigit)
    | _ => ([], rest)
  if whole.isEmpty && part.isEmpty then none
  else
    (readExponent? rest).map fun e => ofDecimal (natOfDigits (whole ++ part)) (e - part.length)

end Number
end EsOptimizer
