/-!
# Operators

The unary, update, binary and assignment operators, their source text, and how strongly the binary
ones bind.
-/

namespace EsOptimizer

inductive UnaryOp where
  | minus | plus | not | bitNot | typeOf | void | delete
deriving DecidableEq, Repr

inductive UpdateOp where
  | increment | decrement
deriving DecidableEq, Repr

inductive BinaryOp where
  | looseEq | looseNe | strictEq | strictNe
  | lt | le | gt | ge
  | shiftLeft | shiftRight | shiftRightZero
  | add | sub | mul | div | rem
  | bitOr | bitXor | bitAnd
  | or | and
  | in | instanceOf
deriving DecidableEq, Repr

/-- An assignment, plain or combined with a binary operator. -/
inductive AssignOp where
  | assign
  | add | sub | mul | div | rem
  | shiftLeft | shiftRight | shiftRightZero
  | bitOr | bitXor | bitAnd
deriving DecidableEq, Repr

def UnaryOp.text : UnaryOp → String
  | .minus => "-"
  | .plus => "+"
  | .not => "!"
  | .bitNot => "~"
  | .typeOf => "typeof"
  | .void => "void"
  | .delete => "delete"

def UpdateOp.text : UpdateOp → String
  | .increment => "++"
  | .decrement => "--"

namespace BinaryOp

def text : BinaryOp → String
  | .looseEq => "=="
  | .looseNe => "!="
  | .strictEq => "==="
  | .strictNe => "!=="
  | .lt => "<"
  | .le => "<="
  | .gt => ">"
  | .ge => ">="
  | .shiftLeft => "<<"
  | .shiftRight => ">>"
  | .shiftRightZero => ">>>"
  | .add => "+"
  | .sub => "-"
  | .mul => "*"
  | .div => "/"
  | .rem => "%"
  | .bitOr => "|"
  | .bitXor => "^"
  | .bitAnd => "&"
  | .or => "||"
  | .and => "&&"
  | .in => "in"
  | .instanceOf => "instanceof"

/-- How strongly the operator binds, from one up. All binary operators group to the left. -/
def precedence : BinaryOp → Nat
  | .or => 1
  | .and => 2
  | .bitOr => 3
  | .bitXor => 4
  | .bitAnd => 5
  | .looseEq | .looseNe | .strictEq | .strictNe => 6
  | .lt | .le | .gt | .ge | .in | .instanceOf => 7
  | .shiftLeft | .shiftRight | .shiftRightZero => 8
  | .add | .sub => 9
  | .mul | .div | .rem => 10

/-- Whether the right operand may be skipped. -/
def isLogical : BinaryOp → Bool
  | .or | .and => true
  | _ => false

end BinaryOp

namespace AssignOp

/-- The operator that a compound assignment applies; none for the plain one. -/
def binary? : AssignOp → Option BinaryOp
  | .assign => none
  | .add => some .add
  | .sub => some .sub
  | .mul => some .mul
  | .div => some .div
  | .rem => some .rem
  | .shiftLeft => some .shiftLeft
  | .shiftRight => some .shiftRight
  | .shiftRightZero => some .shiftRightZero
  | .bitOr => some .bitOr
  | .bitXor => some .bitXor
  | .bitAnd => some .bitAnd

/-- The text of the combined operator, if any, and an equals sign. -/
def text (op : AssignOp) : String :=
  match op.binary? with
  | none => "="
  | some b => b.text ++ "="

end AssignOp

end EsOptimizer
