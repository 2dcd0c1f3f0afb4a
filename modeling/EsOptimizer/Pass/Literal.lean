import EsOptimizer.Syntax.Edit
import EsOptimizer.Value.Primitive

/-!
# Written values

Every primitive value has a written form: the shortest expression that always evaluates to it.
`Make.literal` builds it, and `Expr.writes` recognizes it.
-/

namespace EsOptimizer

namespace Make

open Edit

/-- A number that is not below zero: a literal, or the name of the one that has none. -/
def magnitude (n : Number) : Edit Expr := do
  if n.isInfinite then return .ident (← ident "Infinity") else number n

/-- The written form of a value. Numbers below zero, and the negative zero, are negated. -/
def literal : Primitive → Edit Expr
  | .undefined => undefined
  | .null => return .null (← newId)
  | .bool b => return .bool (← newId) b
  | .string s => return .string (← newId) s
  | .number n => do
    if n.isNaN then return .ident (← ident "NaN")
    let size ← magnitude n.abs
    if n.isNegative then unary .minus size else return size

end Make

/-- Whether an expression is the written form of a number. -/
def Expr.writesNumber (n : Number) : Expr → Bool
  | .ident i => if n.isNaN then i.name == "NaN" else n == Number.infinity && i.name == "Infinity"
  | .number _ m => !n.isNegative && m.eq n
  | .unary _ .minus arg => n.isNegative && arg.writesNumber n.neg
  | _ => false

/-- Whether an expression is the written form of a value. -/
def Expr.writes (p : Primitive) (e : Expr) : Bool :=
  match p, e with
  | .undefined, .unary _ .void (.number _ n) => n.isZero
  | .null, .null _ => true
  | .bool b, .bool _ b' => b' == b
  | .string s, .string _ s' => s' == s
  | .number n, e => e.writesNumber n
  | _, _ => false

end EsOptimizer
