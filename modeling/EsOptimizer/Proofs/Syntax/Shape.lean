import EsOptimizer.Printer.Tree

/-!
# Shapes

What a text can tell of a tree. The shape of a tree has no ids. What is printed also has a block
around each consequent that ends with an open `if` in front of an `else`, as without it the `else`
would belong to the inner `if`, and no sign in front of a zero.
-/

namespace EsOptimizer

/-- The same name at no place. -/
def Ident.shape (i : Ident) : Ident := ⟨0, i.name⟩

/-- A consequent with braces around it, if they are asked for. -/
def Stmt.braced (braces : Bool) (s : Stmt) : Stmt :=
  if braces then .block ⟨0, [s]⟩ else s

mutual

def Expr.shape (printed : Bool) : Expr → Expr
  | .this _ => .this 0
  | .array _ elems => .array 0 (elemShapes printed elems)
  | .object _ props => .object 0 (propShapes printed props)
  | .function _ name fn => .function 0 (name.map Ident.shape) (fn.shape printed)
  | .unary _ op arg => .unary 0 op (arg.shape printed)
  | .update _ op before arg => .update 0 op before (arg.shape printed)
  | .binary _ op left right => .binary 0 op (left.shape printed) (right.shape printed)
  | .assign _ op left right => .assign 0 op (left.shape printed) (right.shape printed)
  | .member _ obj name => .member 0 (obj.shape printed) name.shape
  | .index _ obj key => .index 0 (obj.shape printed) (key.shape printed)
  | .cond _ test yes no => .cond 0 (test.shape printed) (yes.shape printed) (no.shape printed)
  | .call _ callee args => .call 0 (callee.shape printed) (exprShapes printed args)
  | .new _ callee args => .new 0 (callee.shape printed) (exprShapes printed args)
  | .seq _ exprs => .seq 0 (exprShapes printed exprs)
  | .ident name => .ident name.shape
  | .string _ value => .string 0 value
  | .bool _ value => .bool 0 value
  | .null _ => .null 0
  | .number _ value => .number 0 (if printed then value.abs else value)
  | .regex _ body flags => .regex 0 body flags
  | .invalid _ => .invalid 0

def elemShapes (printed : Bool) : List (Option Expr) → List (Option Expr)
  | [] => []
  | none :: rest => none :: elemShapes printed rest
  | some e :: rest => some (e.shape printed) :: elemShapes printed rest

def exprShapes (printed : Bool) : List Expr → List Expr
  | [] => []
  | e :: rest => e.shape printed :: exprShapes printed rest

def exprShape? (printed : Bool) : Option Expr → Option Expr
  | none => none
  | some e => some (e.shape printed)

def PropertyKey.shape (printed : Bool) : PropertyKey → PropertyKey
  | .ident name => .ident name.shape
  | .string _ value => .string 0 value
  | .number _ value => .number 0 (if printed then value.abs else value)
  | .computed e => .computed (e.shape printed)

def Property.shape (printed : Bool) : Property → Property
  | .value _ key value => .value 0 (key.shape printed) (value.shape printed)
  | .getter _ key fn => .getter 0 (key.shape printed) (fn.shape printed)
  | .setter _ key fn => .setter 0 (key.shape printed) (fn.shape printed)

def propShapes (printed : Bool) : List Property → List Property
  | [] => []
  | p :: rest => p.shape printed :: propShapes printed rest

def Func.shape (printed : Bool) : Func → Func
  | ⟨_, params, body⟩ => ⟨0, params.map Ident.shape, body.shape printed⟩

def Block.shape (printed : Bool) : Block → Block
  | ⟨_, stmts⟩ => ⟨0, stmtShapes printed stmts⟩

def blockShape? (printed : Bool) : Option Block → Option Block
  | none => none
  | some b => some (b.shape printed)

def Declarator.shape (printed : Bool) : Declarator → Declarator
  | ⟨_, name, init⟩ => ⟨0, name.shape, exprShape? printed init⟩

def declShapes (printed : Bool) : List Declarator → List Declarator
  | [] => []
  | d :: rest => d.shape printed :: declShapes printed rest

def VarDecl.shape (printed : Bool) : VarDecl → VarDecl
  | ⟨_, kind, decls⟩ => ⟨0, kind, declShapes printed decls⟩

def ForHead.shape (printed : Bool) : ForHead → ForHead
  | .decl d => .decl (d.shape printed)
  | .expr e => .expr (e.shape printed)

def headShape? (printed : Bool) : Option ForHead → Option ForHead
  | none => none
  | some h => some (h.shape printed)

def CatchClause.shape (printed : Bool) : CatchClause → CatchClause
  | ⟨_, param, body⟩ => ⟨0, param.map Ident.shape, body.shape printed⟩

def handlerShape? (printed : Bool) : Option CatchClause → Option CatchClause
  | none => none
  | some c => some (c.shape printed)

def Stmt.shape (printed : Bool) : Stmt → Stmt
  | .block b => .block (b.shape printed)
  | .empty _ => .empty 0
  | .expr _ e => .expr 0 (e.shape printed)
  | .var d => .var (d.shape printed)
  | .function _ name fn => .function 0 name.shape (fn.shape printed)
  | .if _ test yes no =>
    .if 0 (test.shape printed)
      ((yes.shape printed).braced (printed && no.isSome && yes.endsWithOpenIf))
      (stmtShape? printed no)
  | .for _ init test update body =>
    .for 0 (headShape? printed init) (exprShape? printed test) (exprShape? printed update)
      (body.shape printed)
  | .forIn _ head obj body => .forIn 0 (head.shape printed) (obj.shape printed) (body.shape printed)
  | .while _ test body => .while 0 (test.shape printed) (body.shape printed)
  | .doWhile _ body test => .doWhile 0 (body.shape printed) (test.shape printed)
  | .return _ arg => .return 0 (exprShape? printed arg)
  | .break _ label => .break 0 (label.map Ident.shape)
  | .continue _ label => .continue 0 (label.map Ident.shape)
  | .labeled _ label body => .labeled 0 label.shape (body.shape printed)
  | .throw _ arg => .throw 0 (arg.shape printed)
  | .with _ obj body => .with 0 (obj.shape printed) (body.shape printed)
  | .try _ block handler finalizer =>
    .try 0 (block.shape printed) (handlerShape? printed handler) (blockShape? printed finalizer)

def stmtShape? (printed : Bool) : Option Stmt → Option Stmt
  | none => none
  | some s => some (s.shape printed)

def stmtShapes (printed : Bool) : List Stmt → List Stmt
  | [] => []
  | s :: rest => s.shape printed :: stmtShapes printed rest

end

def Program.shape (printed : Bool) (p : Program) : Program := ⟨0, stmtShapes printed p.body⟩

attribute [simp] Expr.shape elemShapes exprShapes exprShape? PropertyKey.shape Property.shape
  propShapes Func.shape Block.shape blockShape? Declarator.shape declShapes VarDecl.shape
  ForHead.shape headShape? CatchClause.shape handlerShape? Stmt.shape stmtShape? stmtShapes

/-- The first tree is what the text of the second one tells. -/
def Expr.SpelledBy (a e : Expr) : Prop := a.shape false = e.shape true

/-- Ids do not matter for what can be assigned to. -/
@[simp] theorem Expr.isTarget_shape (printed : Bool) (e : Expr) :
    (e.shape printed).isTarget = e.isTarget := by
  cases e <;> rfl

theorem Expr.SpelledBy.isTarget {a e : Expr} (h : a.SpelledBy e) : a.isTarget = e.isTarget := by
  rw [← isTarget_shape false a, h, isTarget_shape]

end EsOptimizer
