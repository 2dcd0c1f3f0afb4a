import EsOptimizer.Text.LetterCase
import EsOptimizer.Value.Basic

/-!
# Calling built-in functions

Built-in functions without effects can be run ahead of time: on primitive inputs (`callPure`), on
every combination of a few possible inputs (`callProduct`), and on the elements of an array that is
known in full (`callArray`). Where the exact result cannot be given there is none.
-/

namespace EsOptimizer

namespace Native

/-- The argument at an index; those left out are `undefined`. -/
def arg (args : List Primitive) (i : Nat) : Primitive := (args[i]?).getD .undefined

/-- A number brought into the range from zero to `len`. -/
def clamp (n : Number) (len : Nat) : Nat :=
  if n.lt .zero then 0
  else if (Number.ofNat len).le n then len
  else n.wholePart

/-- An index that counts from the end if it is negative; if it is left out, `missing`. -/
def relativeIndex (p : Primitive) (len : Nat) (missing : Nat) : Nat :=
  if p = .undefined then missing
  else
    let n := p.toInteger
    if n.lt .zero then clamp ((Number.ofNat len).add n) len else clamp n len

/-- An index in the range from zero to `len`; if it is left out, `missing`. -/
def absoluteIndex (p : Primitive) (len : Nat) (missing : Nat) : Nat :=
  if p = .undefined then missing else clamp p.toInteger len

/-- The text of some code units, if it is one. -/
def unitText (us : List UInt16) : Option Primitive := (Text.ofUnits? us).map .string

/-- The first index from which on `search` stands in `us`, counted from `start`. -/
def findUnits (search : List UInt16) : List UInt16 → Nat → Option Nat
  | us, start =>
    if search.isPrefixOf us then some start
    else match us with
      | [] => none
      | _ :: rest => findUnits search rest (start + 1)

/-- An index, or minus one if there is none. -/
def indexOrMinusOne (found : Option Nat) : Number :=
  (found.map Number.ofNat).getD (Number.ofNat 1).neg

/-- The code unit that a position names. -/
def unitAt (us : List UInt16) (pos : Number) : Option UInt16 :=
  if Number.zero.le pos && pos.lt (.ofNat us.length) then us[pos.wholePart]? else none

/-- The units from `first` up to `last`. -/
def cut (us : List UInt16) (first last : Nat) : List UInt16 := (us.drop first).take (last - first)

/-- The methods of texts. -/
def callString (f : Native) (s : String) (args : List Primitive) : Option Primitive :=
  let us := Text.units s
  let len := us.length
  match f with
  | .stringCharAt =>
    match unitAt us (arg args 0).toInteger with
    | some u => unitText [u]
    | none => some (.string "")
  | .stringCharCodeAt =>
    match unitAt us (arg args 0).toInteger with
    | some u => some (.number (.ofNat u.toNat))
    | none => some (.number .nan)
  | .stringIndexOf =>
    let start := clamp (arg args 1).toInteger len
    some (.number (indexOrMinusOne (findUnits (Text.units (arg args 0).toText) (us.drop start) start)))
  | .stringSlice =>
    unitText (cut us (relativeIndex (arg args 0) len 0) (relativeIndex (arg args 1) len len))
  | .stringSubstring =>
    let a := absoluteIndex (arg args 0) len 0
    let b := absoluteIndex (arg args 1) len len
    unitText (cut us (min a b) (max a b))
  | .stringToUpperCase => some (.string (Text.toUpper s))
  | .stringToLowerCase => some (.string (Text.toLower s))
  | .stringTrim => some (.string (String.ofList (Text.trim s.toList)))
  | _ => none

/-- The greater of two numbers: `nan` wins, and `0` is above `-0`. -/
def maxNumber (acc n : Number) : Number :=
  if acc.isNaN || n.isNaN then .nan
  else if acc.lt n || (n.isZero && acc.isZero && acc.isNegative) then n
  else acc

/-- The lesser of two numbers: `nan` wins, and `-0` is below `0`. -/
def minNumber (acc n : Number) : Number :=
  if acc.isNaN || n.isNaN then .nan
  else if n.lt acc || (n.isZero && acc.isZero && n.isNegative) then n
  else acc

/-- The base that `parseInt` reads in, whether a hexadecimal mark may stand in front. -/
def readingBase? (radix : Primitive) : Option (Nat × Bool) :=
  let r := radix.toNumber.toInt32
  if r = 0 then some (10, true)
  else if 2 ≤ r && r ≤ 36 then some (r.toInt.toNat, r == 16)
  else none

/-- Reads the whole number at the beginning of a text. -/
def readInt (cs : List Char) (radix : Primitive) : Number :=
  let (negative, cs) := Primitive.splitSign (Text.trimStart cs)
  match readingBase? radix with
  | none => .nan
  | some (base, mayMark) =>
    let (base, cs) := match mayMark, cs with
      | true, '0' :: 'x' :: ds | true, '0' :: 'X' :: ds => (16, ds)
      | _, ds => (base, ds)
    let digits := (cs.map (Number.digitValue? base)).takeWhile Option.isSome
    if digits.isEmpty then .nan
    else (Number.ofDigits base digits.reduceOption).withSign negative

/-- How many characters at the beginning are an exponent with its mark; zero if there is none. -/
def exponentLength : List Char → Nat
  | [] => 0
  | c :: rest =>
    if c == 'e' || c == 'E' then
      let signed := match rest with
        | '+' :: _ | '-' :: _ => 1
        | _ => 0
      let digits := ((rest.drop signed).takeWhile Number.isDigit).length
      if digits = 0 then 0 else 1 + signed + digits
    else 0

/-- The longest beginning of a text that is an unsigned decimal, if any. -/
def decimalStart? (cs : List Char) : Option (List Char) :=
  let whole := (cs.takeWhile Number.isDigit).length
  let part := match cs.drop whole with
    | '.' :: after => 1 + (after.takeWhile Number.isDigit).length
    | _ => 0
  if whole = 0 && part ≤ 1 then none
  else
    let mantissa := whole + part
    some (cs.take (mantissa + exponentLength (cs.drop mantissa)))

/-- Reads the decimal at the beginning of a text. -/
def readFloat (cs : List Char) : Number :=
  let (negative, cs) := Primitive.splitSign (Text.trimStart cs)
  if "Infinity".toList.isPrefixOf cs then Number.infinity.withSign negative
  else ((decimalStart? cs).bind Number.ofDecimalText?).elim .nan (Number.withSign negative)

/-- Runs a function without effects on primitive inputs. -/
def callPure (f : Native) (this : Primitive) (args : List Primitive) : Option Primitive :=
  let x := (arg args 0).toNumber
  match f with
  | .string => some (.string ((args.head?.map Primitive.toText).getD ""))
  | .number => some (.number ((args.head?.map Primitive.toNumber).getD .zero))
  | .boolean => some (.bool (arg args 0).truthy)
  | .parseInt => some (.number (readInt (arg args 0).toText.toList (arg args 1)))
  | .parseFloat => some (.number (readFloat (arg args 0).toText.toList))
  | .isNaN => some (.bool x.isNaN)
  | .isFinite => some (.bool x.isFinite)
  | .stringFromCharCode => unitText (args.map fun a => a.toNumber.toUInt32.toUInt16)
  | .mathAbs => some (.number x.abs)
  | .mathCeil => some (.number x.ceil)
  | .mathFloor => some (.number x.floor)
  | .mathRound => some (.number x.round)
  | .mathTrunc => some (.number x.trunc)
  | .mathSign => some (.number x.signum)
  | .mathSqrt => some (.number x.sqrt)
  | .mathPow => some (.number (x.pow (arg args 1).toNumber))
  | .mathMax => some (.number ((args.map Primitive.toNumber).foldl maxNumber Number.infinity.neg))
  | .mathMin => some (.number ((args.map Primitive.toNumber).foldl minNumber .infinity))
  | .numberToString =>
    match this, arg args 0 with
    | .number _, .undefined => some (.string this.toText)
    | .number _, radix => if radix.toNumber.eq (.ofNat 10) then some (.string this.toText) else none
    | _, _ => none
  | .numberToFixed =>
    match this with
    | .number n => (n.toFixed (arg args 0).toInteger).map .string
    | _ => none
  | f =>
    match this with
    | .string s => callString f s args
    | _ => none

/-! ## Several possible inputs -/

/-- With more combinations of inputs than this nothing is run. -/
def maxCombinations : Nat := 64

/-- The primitive values that a value may have, if it can have no others. -/
def choices? (v : Value) : Option (List Primitive) := v.singles?.bind (·.mapM Single.primitive?)

/-- All ways to choose one member of each list; the choice from the first list varies fastest. -/
def combinations {α : Type} : List (List α) → List (List α)
  | [] => [[]]
  | choices :: rest => (combinations rest).flatMap fun tail => choices.map (· :: tail)

/-- Runs a function without effects on every combination of inputs. There is no result if one of
them is refused, or if a word of sixty-four bits cannot count the combinations; with more of them
than `maxCombinations` nothing is known of the result. -/
def callProduct (f : Native) (this : Value) (args : List Value) : Option Value := do
  let receivers ← if f.receiver = .ignored then some [.undefined] else choices? this
  let choices ← args.mapM choices?
  let count := choices.foldl (fun n c => n * c.length) receivers.length
  if Nat.pow 2 64 ≤ count then none
  else if maxCombinations < count then return .unknown
  else
    let inputs := receivers.flatMap fun r => (combinations choices).map fun a => (r, a)
    let results ← inputs.mapM fun i => f.callPure i.1 i.2
    return .ofSingles (results.map .primitive)

/-! ## Arrays -/

/-- What an array method gives: a value, or the array that it was called on. -/
inductive ArrayResult where
  | value (value : Value)
  | this
deriving Repr

/-- How an element is written by `join`. -/
def joinText (p : Primitive) : String := if p.isNullish then "" else p.toText

/-- What stands between the elements in the result of `join`. -/
def separator? (args : List Value) : Option String :=
  match args.head? with
  | none => some ","
  | some v => v.primitive?.map fun p => if p = .undefined then "," else p.toText

/-- Runs an array method on the elements of an array; gives the elements after it and its result. -/
def callArray (f : Native) (elems args : List Value) : Option (List Value × ArrayResult) :=
  match f with
  | .arrayPush =>
    let elems := elems ++ args
    some (elems, .value (.nat elems.length))
  | .arrayPop => some (elems.dropLast, .value (elems.getLast?.getD .undefined))
  | .arrayReverse => some (elems.reverse, .this)
  | .arrayJoin => do
    let sep ← separator? args
    let parts ← elems.mapM Value.primitive?
    return (elems, .value (.string (sep.intercalate (parts.map joinText))))
  | .arrayIndexOf => do
    let search ← (args.head?.getD .undefined).primitive?
    let parts ← elems.mapM Value.primitive?
    return (elems, .value (.number (indexOrMinusOne (parts.findIdx? (·.strictEquals search)))))
  | _ => none

end Native

end EsOptimizer
