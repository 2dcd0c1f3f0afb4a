import EsOptimizer.Proofs.Run.Basic

/-!
# Plain functions

The functions that `Func.exec` gives a meaning to: their bodies are made of declarations with `var`,
expressions, branches, loops other than `for-in`, labels, jumps, `throw` and `try`, and their
expressions compute with primitive values and with names that are in force. `constants` are the
names of global constants that may be read as well.
-/

namespace EsOptimizer

mutual

/-- Whether an expression is plain where the names `own` are in force. -/
def Expr.isPlain (constants own : List String) : Expr → Bool
  | .ident i => own.contains i.name || constants.contains i.name
  | .string _ _ | .bool _ _ | .null _ | .number _ _ => true
  | .unary _ op arg => op != .delete && arg.isPlain constants own
  | .update _ _ _ (.ident i) => own.contains i.name
  | .binary _ op left right =>
    op != .in && op != .instanceOf && left.isPlain constants own && right.isPlain constants own
  | .assign _ _ (.ident i) right => own.contains i.name && right.isPlain constants own
  | .cond _ test yes no =>
    test.isPlain constants own && yes.isPlain constants own && no.isPlain constants own
  | .seq _ exprs => arePlain constants own exprs
  | _ => false

def arePlain (constants own : List String) : List Expr → Bool
  | [] => true
  | e :: rest => e.isPlain constants own && arePlain constants own rest

end

/-- Whether an expression, if there is one, is plain. -/
def isPlain? (constants own : List String) (e : Option Expr) : Bool :=
  e.all (·.isPlain constants own)

def VarDecl.isPlain (constants own : List String) (d : VarDecl) : Bool :=
  d.kind == .var && d.decls.all fun x => own.contains x.name.name && isPlain? constants own x.init

def ForHead.isPlain (constants own : List String) : ForHead → Bool
  | .decl d => d.isPlain constants own
  | .expr e => e.isPlain constants own

mutual

/-- Whether a statement is plain where the names `own` are in force. -/
def Stmt.isPlain (constants : List String) : Stmt → (own : List String) → Bool
  | .block b, own => b.isPlain constants own
  | .empty _, _ | .break _ _, _ | .continue _ _, _ => true
  | .expr _ e, own => e.isPlain constants own
  | .var d, own => d.isPlain constants own
  | .if _ test yes no, own =>
    test.isPlain constants own && yes.isPlain constants own && isPlainStmt? constants no own
  | .while _ test body, own => test.isPlain constants own && body.isPlain constants own
  | .doWhile _ body test, own => test.isPlain constants own && body.isPlain constants own
  | .for _ init test update body, own =>
    init.all (·.isPlain constants own) && EsOptimizer.isPlain? constants own test &&
      EsOptimizer.isPlain? constants own update && body.isPlain constants own
  | .labeled _ _ body, own => body.isPlain constants own
  | .return _ arg, own => EsOptimizer.isPlain? constants own arg
  | .throw _ arg, own => arg.isPlain constants own
  | .try _ block handler finalizer, own =>
    block.isPlain constants own && isPlainHandler? constants handler own &&
      isPlainBlock? constants finalizer own
  | .function _ _ _, _ | .forIn _ _ _ _, _ | .with _ _ _, _ => false

def isPlainStmt? (constants : List String) : Option Stmt → (own : List String) → Bool
  | none, _ => true
  | some s, own => s.isPlain constants own

def Block.isPlain (constants : List String) : Block → (own : List String) → Bool
  | ⟨_, stmts⟩, own => arePlainStmts constants stmts own

def isPlainBlock? (constants : List String) : Option Block → (own : List String) → Bool
  | none, _ => true
  | some b, own => b.isPlain constants own

/-- The parameter of a handler is in force in its body. -/
def isPlainHandler? (constants : List String) : Option CatchClause → (own : List String) → Bool
  | none, _ => true
  | some ⟨_, none, body⟩, own => body.isPlain constants own
  | some ⟨_, some param, body⟩, own => body.isPlain constants (param.name :: own)

def arePlainStmts (constants : List String) : List Stmt → (own : List String) → Bool
  | [], _ => true
  | s :: rest, own => s.isPlain constants own && arePlainStmts constants rest own

end

namespace Func

/-- The names of the parameters and of the variables that the body declares. -/
def ownNames (f : Func) : List String := f.params.map (·.name) ++ f.varNames.map (·.name)

/-- Whether the body of a function is plain. -/
def hasPlainBody (constants : List String) (f : Func) : Bool :=
  arePlainStmts constants f.body.stmts f.ownNames

/-- Whether a function is plain. No variable of it hides its `arguments`. -/
def isPlain (constants : List String) (f : Func) : Bool :=
  !f.ownNames.contains "arguments" && arePlainStmts constants f.body.stmts f.ownNames

theorem hasPlainBody_of_isPlain {constants : List String} {f : Func}
    (h : f.isPlain constants = true) : f.hasPlainBody constants = true := by
  rw [isPlain, Bool.and_eq_true] at h
  exact h.2

end Func

end EsOptimizer
