import EsOptimizer.Analysis
import EsOptimizer.Pass.Literal
import EsOptimizer.Syntax.Transform

/-!
# Constants

An expression that always evaluates to the same primitive value, and does nothing else, becomes the
written form of that value.
-/

namespace EsOptimizer

namespace FoldConstants

/-- Whether the program gives `NaN` or `Infinity`, by whose names two numbers are written, a meaning
of its own. -/
def hidesConstants (scopes : ScopeTree) : Bool :=
  scopes.vars.any fun v => v.kind != .implicit && (v.name == "NaN" || v.name == "Infinity")

/-- Whether the name of a global constant is needed to write a value. -/
def needsName : Primitive → Bool
  | .number n => !n.isFinite
  | _ => false

/-- Whether an expression is left as it is although its value is known. -/
def isWritten (a : Analysis) (p : Primitive) (e : Expr) : Bool :=
  e.writes p || (needsName p && hidesConstants a.scopes)

/-- What changes a variable or property stays. -/
def isFoldable : Expr → Bool
  | .assign _ _ _ _ | .update _ _ _ _ | .unary _ .delete _ => false
  | _ => true

/-- The value to be written in place of an expression. -/
def constant? (a : Analysis) (role : Role) (e : Expr) : Option Primitive :=
  if role = .value && isFoldable e then (a.constant? e.id).filter fun p => !isWritten a p e
  else none

/-- Of what is assigned to, only the operands are values. -/
def isEntered : Role → Expr → Bool
  | .value, _ | .callee, _ => true
  | .target, .member _ _ _ | .target, .index _ _ _ => true
  | .target, _ | .loopTarget, _ => false

def transform (a : Analysis) : Transform where
  enter := isEntered
  expr role e :=
    match constant? a role e with
    | none => pure e
    | some p => do
      Edit.markChanged
      Make.literal p

end FoldConstants

/-- Writes constant expressions out. -/
def foldConstants (a : Analysis) (src : Source) : Source × Bool :=
  (FoldConstants.transform a).run src []

end EsOptimizer
