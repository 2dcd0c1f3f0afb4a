import EsOptimizer.Heap.Object

/-!
# Built-in objects

The objects and global variables that exist before a program runs. Only the listed properties are
known: a built-in object may have others, but none that is enumerable.
-/

namespace EsOptimizer

namespace Host

/-- The value of a built-in object. -/
def value (h : Host) : Value := .ofReference (.host h)

/-- A method: it can be replaced, and is not enumerable. -/
def method (name : String) (f : Native) : String × Descriptor :=
  (name, .hidden (Host.function f).value)

/-- A property that can be read only. -/
def constant (name : String) (v : Value) : String × Descriptor := (name, .frozen v)

/-- A number property that can be read only, by its bit pattern. -/
def double (name : String) (bits : UInt64) : String × Descriptor :=
  constant name (.number (.ofBits bits))

def arrayMethods : Properties :=
  [method "push" .arrayPush, method "pop" .arrayPop, method "reverse" .arrayReverse,
   method "join" .arrayJoin, method "indexOf" .arrayIndexOf]

def stringMethods : Properties :=
  [method "charAt" .stringCharAt, method "charCodeAt" .stringCharCodeAt,
   method "indexOf" .stringIndexOf, method "slice" .stringSlice,
   method "substring" .stringSubstring, method "toUpperCase" .stringToUpperCase,
   method "toLowerCase" .stringToLowerCase, method "trim" .stringTrim]

def numberMethods : Properties :=
  [method "toString" .numberToString, method "toFixed" .numberToFixed]

def mathMembers : Properties :=
  [double "PI" 0x400921fb54442d18, double "E" 0x4005bf0a8b145769,
   double "LN2" 0x3fe62e42fefa39ef, double "LN10" 0x40026bb1bbb55516,
   double "LOG2E" 0x3ff71547652b82fe, double "LOG10E" 0x3fdbcb7b1526e50e,
   double "SQRT2" 0x3ff6a09e667f3bcd, double "SQRT1_2" 0x3fe6a09e667f3bcd,
   method "abs" .mathAbs, method "ceil" .mathCeil, method "floor" .mathFloor,
   method "round" .mathRound, method "trunc" .mathTrunc, method "sign" .mathSign,
   method "sqrt" .mathSqrt, method "pow" .mathPow, method "max" .mathMax, method "min" .mathMin]

def consoleMethods : Properties :=
  [method "log" .consoleLog, method "warn" .consoleWarn, method "error" .consoleError]

/-- The constants of the function `Number`. -/
def numberConstants : Properties :=
  [double "MAX_VALUE" 0x7fefffffffffffff, double "MIN_VALUE" 1,
   constant "POSITIVE_INFINITY" (.number .infinity),
   constant "NEGATIVE_INFINITY" (.number Number.infinity.neg),
   double "MAX_SAFE_INTEGER" 0x433fffffffffffff, constant "NaN" (.number .nan)]

/-- The `prototype` of a constructor. -/
def prototype (h : Host) : String × Descriptor := constant "prototype" h.value

/-- The properties of a function. -/
def functionMembers : Native → Properties
  | .object => [prototype objectPrototype]
  | .array => [prototype arrayPrototype]
  | .string => [prototype stringPrototype, method "fromCharCode" .stringFromCharCode]
  | .number => prototype numberPrototype :: numberConstants
  | .boolean => [prototype booleanPrototype]
  | _ => []

def members : Host → Properties
  | arrayPrototype => arrayMethods
  | stringPrototype => stringMethods
  | numberPrototype => numberMethods
  | math => mathMembers
  | console => consoleMethods
  | function f => functionMembers f
  | objectPrototype | functionPrototype | booleanPrototype | regExpPrototype => []

theorem members_distinct (h : Host) : h.members.Distinct := by
  cases h with
  | function f => cases f <;> decide
  | _ => decide

/-- The prototype of a built-in object. -/
def proto? : Host → Option Host
  | objectPrototype => none
  | function _ => some functionPrototype
  | _ => some objectPrototype

/-- A built-in object as it is before the program runs. -/
def object (h : Host) : HeapObject where
  proto := h.proto?.map .host
  properties := h.members
  knowledge := .noUnknownOverrideOrEnumerable
  host := some h
  distinct := h.members_distinct

/-- The value of a global variable that exists before the program runs. -/
def global? : String → Option Value
  | "undefined" => some .undefined
  | "NaN" => some (.number .nan)
  | "Infinity" => some (.number .infinity)
  | "Math" => some math.value
  | "console" => some console.value
  | "Object" => some (function .object).value
  | "Array" => some (function .array).value
  | "String" => some (function .string).value
  | "Number" => some (function .number).value
  | "Boolean" => some (function .boolean).value
  | "parseInt" => some (function .parseInt).value
  | "parseFloat" => some (function .parseFloat).value
  | "isNaN" => some (function .isNaN).value
  | "isFinite" => some (function .isFinite).value
  | _ => none

end Host

/-- The object of a reference before the program runs. -/
def Reference.initialObject? : Reference → Option HeapObject
  | .host h => some h.object
  | .node _ _ => none

end EsOptimizer
