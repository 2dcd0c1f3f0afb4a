/-!
# The built-in environment

The built-in objects and functions that the analysis knows. Their order here is the alphabetic order
of their names, in which listings show them.
-/

namespace EsOptimizer

/-- A built-in function. -/
inductive Native where
  | array
  | arrayIndexOf | arrayJoin | arrayPop | arrayPush | arrayReverse
  | boolean
  | consoleError | consoleLog | consoleWarn
  | isFinite | isNaN
  | mathAbs | mathCeil | mathFloor | mathMax | mathMin | mathPow | mathRound | mathSign | mathSqrt
  | mathTrunc
  | number
  | numberToFixed | numberToString
  | object
  | parseFloat | parseInt
  | string
  | stringCharAt | stringCharCodeAt | stringFromCharCode | stringIndexOf | stringSlice
  | stringSubstring | stringToLowerCase | stringToUpperCase | stringTrim
deriving DecidableEq, Repr

/-- A built-in object. -/
inductive Host where
  | arrayPrototype
  | booleanPrototype
  | console
  | function (fn : Native)
  | functionPrototype
  | math
  | numberPrototype
  | objectPrototype
  | regExpPrototype
  | stringPrototype
deriving DecidableEq, Repr

/-- What a call of a built-in function may do besides giving a result. -/
inductive Effect where
  /-- Nothing, so it can be run ahead of time on known inputs. -/
  | pure
  /-- It changes the array it is called on. -/
  | mutatesReceiver
  /-- It can be observed from outside, and may run code through the conversion of its inputs. -/
  | unknown
deriving DecidableEq, Repr

/-- The kind of `this` that a built-in function works on. -/
inductive Receiver where
  | ignored | string | number | array
deriving DecidableEq, Repr

namespace Native

def effect : Native → Effect
  | arrayPush | arrayPop | arrayReverse => .mutatesReceiver
  | object | array | consoleLog | consoleWarn | consoleError => .unknown
  | _ => .pure

def receiver : Native → Receiver
  | stringCharAt | stringCharCodeAt | stringIndexOf | stringSlice | stringSubstring
  | stringToUpperCase | stringToLowerCase | stringTrim => .string
  | numberToString | numberToFixed => .number
  | arrayPush | arrayPop | arrayReverse | arrayJoin | arrayIndexOf => .array
  | _ => .ignored

/-- The name of a function in listings. -/
def text : Native → String
  | array => "Array"
  | arrayIndexOf => "ArrayIndexOf"
  | arrayJoin => "ArrayJoin"
  | arrayPop => "ArrayPop"
  | arrayPush => "ArrayPush"
  | arrayReverse => "ArrayReverse"
  | boolean => "Boolean"
  | consoleError => "ConsoleError"
  | consoleLog => "ConsoleLog"
  | consoleWarn => "ConsoleWarn"
  | isFinite => "IsFinite"
  | isNaN => "IsNaN"
  | mathAbs => "MathAbs"
  | mathCeil => "MathCeil"
  | mathFloor => "MathFloor"
  | mathMax => "MathMax"
  | mathMin => "MathMin"
  | mathPow => "MathPow"
  | mathRound => "MathRound"
  | mathSign => "MathSign"
  | mathSqrt => "MathSqrt"
  | mathTrunc => "MathTrunc"
  | number => "Number"
  | numberToFixed => "NumberToFixed"
  | numberToString => "NumberToString"
  | object => "Object"
  | parseFloat => "ParseFloat"
  | parseInt => "ParseInt"
  | string => "String"
  | stringCharAt => "StringCharAt"
  | stringCharCodeAt => "StringCharCodeAt"
  | stringFromCharCode => "StringFromCharCode"
  | stringIndexOf => "StringIndexOf"
  | stringSlice => "StringSlice"
  | stringSubstring => "StringSubstring"
  | stringToLowerCase => "StringToLowerCase"
  | stringToUpperCase => "StringToUpperCase"
  | stringTrim => "StringTrim"

/-- How many functions there are. -/
def count : Nat := 38

end Native

namespace Host

/-- The name of an object in listings. -/
def text : Host → String
  | arrayPrototype => "ArrayPrototype"
  | booleanPrototype => "BooleanPrototype"
  | console => "Console"
  | function f => "Function(" ++ f.text ++ ")"
  | functionPrototype => "FunctionPrototype"
  | math => "Math"
  | numberPrototype => "NumberPrototype"
  | objectPrototype => "ObjectPrototype"
  | regExpPrototype => "RegExpPrototype"
  | stringPrototype => "StringPrototype"

/-- The place of an object in listings. -/
def rank : Host → Nat
  | arrayPrototype => 0
  | booleanPrototype => 1
  | console => 2
  | function f => 3 + f.ctorIdx
  | functionPrototype => 3 + Native.count
  | math => 4 + Native.count
  | numberPrototype => 5 + Native.count
  | objectPrototype => 6 + Native.count
  | regExpPrototype => 7 + Native.count
  | stringPrototype => 8 + Native.count

/-- How many built-in objects there are. -/
def count : Nat := 9 + Native.count

end Host

end EsOptimizer
