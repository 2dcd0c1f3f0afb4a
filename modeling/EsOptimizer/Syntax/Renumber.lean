import EsOptimizer.Syntax.Tree

/-!
# Renumbered copies

A copy of a subtree that is put elsewhere needs ids of its own, because facts are kept by id.
`renumber` copies a tree and numbers the copy in order of appearance, each node before its parts.
Every id of the copy is new, also those of labels, property names and names after a point.
-/

namespace EsOptimizer

/-- Computations that hand out ids, counting upwards. -/
abbrev Fresh := StateM NodeId

/-- The next id. -/
def fresh : Fresh NodeId := fun n => (n, n + 1)

def Ident.renumber (i : Ident) : Fresh Ident := do
  return ⟨← fresh, i.name⟩

/-- Renumbers a name that may be missing. -/
def Ident.renumber? : Option Ident → Fresh (Option Ident)
  | none => return none
  | some i => return some (← i.renumber)

mutual

def Expr.renumber : Expr → Fresh Expr
  | .this _ => return .this (← fresh)
  | .array _ elems => return .array (← fresh) (← renumberElems elems)
  | .object _ props => return .object (← fresh) (← renumberProps props)
  | .function _ name fn => return .function (← fresh) (← Ident.renumber? name) (← fn.renumber)
  | .unary _ op arg => return .unary (← fresh) op (← arg.renumber)
  | .update _ op before arg => return .update (← fresh) op before (← arg.renumber)
  | .binary _ op left right => return .binary (← fresh) op (← left.renumber) (← right.renumber)
  | .assign _ op left right => return .assign (← fresh) op (← left.renumber) (← right.renumber)
  | .member _ obj name => return .member (← fresh) (← obj.renumber) (← name.renumber)
  | .index _ obj key => return .index (← fresh) (← obj.renumber) (← key.renumber)
  | .cond _ test yes no =>
    return .cond (← fresh) (← test.renumber) (← yes.renumber) (← no.renumber)
  | .call _ callee args => return .call (← fresh) (← callee.renumber) (← renumberExprs args)
  | .new _ callee args => return .new (← fresh) (← callee.renumber) (← renumberExprs args)
  | .seq _ exprs => return .seq (← fresh) (← renumberExprs exprs)
  | .ident name => return .ident (← name.renumber)
  | .string _ value => return .string (← fresh) value
  | .bool _ value => return .bool (← fresh) value
  | .null _ => return .null (← fresh)
  | .number _ value => return .number (← fresh) value
  | .regex _ body flags => return .regex (← fresh) body flags
  | .invalid _ => return .invalid (← fresh)

def renumberElems : List (Option Expr) → Fresh (List (Option Expr))
  | [] => return []
  | none :: rest => return none :: (← renumberElems rest)
  | some e :: rest => return some (← e.renumber) :: (← renumberElems rest)

def renumberExprs : List Expr → Fresh (List Expr)
  | [] => return []
  | e :: rest => return (← e.renumber) :: (← renumberExprs rest)

def renumberExpr? : Option Expr → Fresh (Option Expr)
  | none => return none
  | some e => return some (← e.renumber)

def PropertyKey.renumber : PropertyKey → Fresh PropertyKey
  | .ident name => return .ident (← name.renumber)
  | .string _ value => return .string (← fresh) value
  | .number _ value => return .number (← fresh) value
  | .computed expr => return .computed (← expr.renumber)

def Property.renumber : Property → Fresh Property
  | .value _ key value => return .value (← fresh) (← key.renumber) (← value.renumber)
  | .getter _ key fn => return .getter (← fresh) (← key.renumber) (← fn.renumber)
  | .setter _ key fn => return .setter (← fresh) (← key.renumber) (← fn.renumber)

def renumberProps : List Property → Fresh (List Property)
  | [] => return []
  | p :: rest => return (← p.renumber) :: (← renumberProps rest)

def Func.renumber : Func → Fresh Func
  | ⟨_, params, body⟩ => return ⟨← fresh, ← params.mapM Ident.renumber, ← body.renumber⟩

def Block.renumber : Block → Fresh Block
  | ⟨_, stmts⟩ => return ⟨← fresh, ← renumberStmts stmts⟩

def renumberBlock? : Option Block → Fresh (Option Block)
  | none => return none
  | some b => return some (← b.renumber)

def Declarator.renumber : Declarator → Fresh Declarator
  | ⟨_, name, init⟩ => return ⟨← fresh, ← name.renumber, ← renumberExpr? init⟩

def renumberDecls : List Declarator → Fresh (List Declarator)
  | [] => return []
  | d :: rest => return (← d.renumber) :: (← renumberDecls rest)

def VarDecl.renumber : VarDecl → Fresh VarDecl
  | ⟨_, kind, decls⟩ => return ⟨← fresh, kind, ← renumberDecls decls⟩

def ForHead.renumber : ForHead → Fresh ForHead
  | .decl d => return .decl (← d.renumber)
  | .expr e => return .expr (← e.renumber)

def renumberHead? : Option ForHead → Fresh (Option ForHead)
  | none => return none
  | some h => return some (← h.renumber)

def CatchClause.renumber : CatchClause → Fresh CatchClause
  | ⟨_, param, body⟩ => return ⟨← fresh, ← Ident.renumber? param, ← body.renumber⟩

def renumberHandler? : Option CatchClause → Fresh (Option CatchClause)
  | none => return none
  | some c => return some (← c.renumber)

def Stmt.renumber : Stmt → Fresh Stmt
  | .block b => return .block (← b.renumber)
  | .empty _ => return .empty (← fresh)
  | .expr _ e => return .expr (← fresh) (← e.renumber)
  | .var d => return .var (← d.renumber)
  | .function _ name fn => return .function (← fresh) (← name.renumber) (← fn.renumber)
  | .if _ test yes no =>
    return .if (← fresh) (← test.renumber) (← yes.renumber) (← renumberStmt? no)
  | .for _ init test update body =>
    return .for (← fresh) (← renumberHead? init) (← renumberExpr? test) (← renumberExpr? update)
      (← body.renumber)
  | .forIn _ head obj body =>
    return .forIn (← fresh) (← head.renumber) (← obj.renumber) (← body.renumber)
  | .while _ test body => return .while (← fresh) (← test.renumber) (← body.renumber)
  | .doWhile _ body test => return .doWhile (← fresh) (← body.renumber) (← test.renumber)
  | .return _ arg => return .return (← fresh) (← renumberExpr? arg)
  | .break _ label => return .break (← fresh) (← Ident.renumber? label)
  | .continue _ label => return .continue (← fresh) (← Ident.renumber? label)
  | .labeled _ label body => return .labeled (← fresh) (← label.renumber) (← body.renumber)
  | .throw _ e => return .throw (← fresh) (← e.renumber)
  | .with _ obj body => return .with (← fresh) (← obj.renumber) (← body.renumber)
  | .try _ block handler finalizer =>
    return .try (← fresh) (← block.renumber) (← renumberHandler? handler)
      (← renumberBlock? finalizer)

def renumberStmt? : Option Stmt → Fresh (Option Stmt)
  | none => return none
  | some s => return some (← s.renumber)

def renumberStmts : List Stmt → Fresh (List Stmt)
  | [] => return []
  | s :: rest => return (← s.renumber) :: (← renumberStmts rest)

end

end EsOptimizer
