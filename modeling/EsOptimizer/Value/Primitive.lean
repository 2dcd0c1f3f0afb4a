import EsOptimizer.Number.Text
import EsOptimizer.Syntax.Operator
import EsOptimizer.Text.Blank
import EsOptimizer.Text.CodeUnits

/-!
# Primitive values

The values that are not objects, the conversions between them, and the operators on them. For
`Primitive` and whatever is built from it, `==` is the *same value* relation; the language's own `==`
and `===` are `looseEquals` and `strictEquals`.
-/

namespace EsOptimizer

inductive Primitive where
  | undefined
  | null
  | bool (value : Bool)
  | number (value : Number)
  | string (value : String)
deriving DecidableEq, Repr

namespace Primitive

/-- Whether two values are the same. Numbers are compared by `Number.same`. -/
def same : Primitive → Primitive → Bool
  | number a, number b => a.same b
  | a, b => decide (a = b)

instance : BEq Primitive := ⟨same⟩

/-- The boolean that a value converts to. -/
def truthy : Primitive → Bool
  | undefined | null => false
  | bool b => b
  | number n => !n.isZero && !n.isNaN
  | string s => !s.isEmpty

/-- Whether a value has no properties at all. -/
def isNullish : Primitive → Bool
  | undefined | null => true
  | _ => false

/-- What `typeof` answers. -/
def typeOf : Primitive → String
  | undefined => "undefined"
  | null => "object"
  | bool _ => "boolean"
  | number _ => "number"
  | string _ => "string"

/-! ## Conversions -/

/-- The base that the first two characters of a text announce. -/
def announcedBase? : List Char → Option (Nat × List Char)
  | '0' :: 'x' :: ds | '0' :: 'X' :: ds => some (16, ds)
  | '0' :: 'o' :: ds | '0' :: 'O' :: ds => some (8, ds)
  | '0' :: 'b' :: ds | '0' :: 'B' :: ds => some (2, ds)
  | _ => none

/-- A sign in front, and what follows it. -/
def splitSign : List Char → Bool × List Char
  | '+' :: rest => (false, rest)
  | '-' :: rest => (true, rest)
  | rest => (false, rest)

/-- The number that a text spells: blanks around it are ignored, no text at all is zero, and
whatever is not a number in full is `nan`. A sign may stand only in front of a decimal or
`Infinity`. -/
def numberOfChars (cs : List Char) : Number :=
  let cs := Text.trim cs
  if cs.isEmpty then .zero
  else match announcedBase? cs with
    | some (base, ds) =>
      if ds.isEmpty then .nan
      else ((ds.mapM (Number.digitValue? base)).map (Number.ofDigits base)).getD .nan
    | none =>
      let (negative, unsigned) := splitSign cs
      if unsigned = "Infinity".toList then Number.infinity.withSign negative
      else ((Number.ofDecimalText? unsigned).map (Number.withSign negative)).getD .nan

def numberOfText (s : String) : Number := numberOfChars s.toList

def toNumber : Primitive → Number
  | undefined => .nan
  | null => .zero
  | bool b => .ofBool b
  | number n => n
  | string s => numberOfText s

def toText : Primitive → String
  | undefined => "undefined"
  | null => "null"
  | bool b => if b then "true" else "false"
  | number n => n.toText
  | string s => s

/-- The number without what follows its point; zero in place of `nan`. -/
def toInteger (p : Primitive) : Number :=
  let n := p.toNumber
  if n.isNaN then .zero else n.trunc

/-! ## Comparison -/

/-- Equality that converts: `undefined` and `null` equal each other and nothing else, and values of
different types are compared as numbers. -/
def looseEquals (a b : Primitive) : Bool :=
  if a.isNullish || b.isNullish then a.isNullish && b.isNullish
  else match a, b with
    | string a, string b => a == b
    | bool a, bool b => a == b
    | a, b => a.toNumber.eq b.toNumber

/-- Equality that does not convert. -/
def strictEquals (a b : Primitive) : Bool :=
  match a, b with
  | number a, number b => a.eq b
  | a, b => a == b

/-- Whether `a` is less than `b`; there is no answer if one of them is not a number. Two texts are
compared by their code units. -/
def lessThan? (a b : Primitive) : Option Bool :=
  match a, b with
  | string a, string b => some (Text.unitsLt (Text.units a) (Text.units b))
  | a, b =>
    let (a, b) := (a.toNumber, b.toNumber)
    if a.isNaN || b.isNaN then none else some (a.lt b)

/-! ## Operators -/

/-- Texts are joined, anything else is added. -/
def add (a b : Primitive) : Primitive :=
  match a, b with
  | string _, _ | _, string _ => string (a.toText ++ b.toText)
  | _, _ => number (a.toNumber.add b.toNumber)

/-- An operator on signed words. -/
def onWords (f : Int32 → Int32 → Int32) (a b : Primitive) : Primitive :=
  number (.ofInt32 (f a.toNumber.toInt32 b.toNumber.toInt32))

/-- By how much a shift moves: the lowest five bits. -/
def shiftAmount (b : Primitive) : UInt32 := b.toNumber.toUInt32 &&& 31

/-- A binary operator on primitive operands. There is no result for the operators that need an
object, nor for the logical ones, which may skip their right operand. -/
def binary (op : BinaryOp) (a b : Primitive) : Option Primitive :=
  match op with
  | .looseEq => some (bool (a.looseEquals b))
  | .looseNe => some (bool (!a.looseEquals b))
  | .strictEq => some (bool (a.strictEquals b))
  | .strictNe => some (bool (!a.strictEquals b))
  | .lt => some (bool ((a.lessThan? b).getD false))
  | .gt => some (bool ((b.lessThan? a).getD false))
  | .le => some (bool (((b.lessThan? a).map (!·)).getD false))
  | .ge => some (bool (((a.lessThan? b).map (!·)).getD false))
  | .add => some (a.add b)
  | .sub => some (number (a.toNumber.sub b.toNumber))
  | .mul => some (number (a.toNumber.mul b.toNumber))
  | .div => some (number (a.toNumber.div b.toNumber))
  | .rem => some (number (a.toNumber.rem b.toNumber))
  | .shiftLeft => some (number (.ofInt32 (a.toNumber.toInt32 <<< b.shiftAmount.toInt32)))
  | .shiftRight => some (number (.ofInt32 (a.toNumber.toInt32 >>> b.shiftAmount.toInt32)))
  | .shiftRightZero => some (number (.ofUInt32 (a.toNumber.toUInt32 >>> b.shiftAmount)))
  | .bitOr => some (onWords (· ||| ·) a b)
  | .bitXor => some (onWords (· ^^^ ·) a b)
  | .bitAnd => some (onWords (· &&& ·) a b)
  | .or | .and | .in | .instanceOf => none

/-- A unary operator on a primitive operand; `delete` has no meaning there. -/
def unary (op : UnaryOp) (a : Primitive) : Option Primitive :=
  match op with
  | .minus => some (number a.toNumber.neg)
  | .plus => some (number a.toNumber)
  | .not => some (bool (!a.truthy))
  | .bitNot => some (number (.ofInt32 (~~~a.toNumber.toInt32)))
  | .typeOf => some (string a.typeOf)
  | .void => some undefined
  | .delete => none

end Primitive

/-- The index that a property name spells: decimal digits without leading zeros, below the greatest
length of an array. -/
def arrayIndex? (name : String) : Option Nat :=
  let cs := name.toList
  if cs.isEmpty || !cs.all Number.isDigit || (cs.length > 1 && cs.head? == some '0') then none
  else
    let n := Number.natOfDigits cs
    if n < Nat.pow 2 32 - 1 then some n else none

end EsOptimizer
