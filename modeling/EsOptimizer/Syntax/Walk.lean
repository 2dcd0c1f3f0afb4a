import EsOptimizer.Syntax.Tree

/-!
# Walking the tree

`nodes` lists what a tree holds in order of appearance, each node before its parts. Questions about
a tree ("which names does it use?", "is there a jump in it?") are then questions about a list.

Names are listed where they bind or refer to a variable. Labels, names after a point and property
names are not variables, and do not appear by themselves.
-/

namespace EsOptimizer

/-- A part of a tree, as a walk meets it. -/
inductive Node where
  | stmt (stmt : Stmt)
  | expr (expr : Expr)
  | decl (decl : VarDecl)
  /-- The declaration in the head of a `for-in` loop, whose name the loop assigns. -/
  | loopDecl (decl : VarDecl)
  /-- A function. Its name, if it has one, is listed before it. -/
  | func (fn : Func)
  /-- A name that binds or refers to a variable. -/
  | name (ident : Ident)

/-- The node of a name that may be missing. -/
def Node.name? : Option Ident → List Node
  | none => []
  | some i => [.name i]

mutual

/-- The nodes of an expression. The insides of functions are listed only if `deep`. -/
def Expr.nodes (deep : Bool) : Expr → List Node
  | e@(.array _ elems) => .expr e :: elemNodes deep elems
  | e@(.object _ props) => .expr e :: propNodes deep props
  | e@(.function _ name fn) => .expr e :: Node.name? name ++ fn.nodes deep
  | e@(.unary _ _ arg) => .expr e :: arg.nodes deep
  | e@(.update _ _ _ arg) => .expr e :: arg.nodes deep
  | e@(.binary _ _ left right) => .expr e :: left.nodes deep ++ right.nodes deep
  | e@(.assign _ _ left right) => .expr e :: left.nodes deep ++ right.nodes deep
  | e@(.member _ obj _) => .expr e :: obj.nodes deep
  | e@(.index _ obj key) => .expr e :: obj.nodes deep ++ key.nodes deep
  | e@(.cond _ test yes no) => .expr e :: test.nodes deep ++ yes.nodes deep ++ no.nodes deep
  | e@(.call _ callee args) => .expr e :: callee.nodes deep ++ exprNodes deep args
  | e@(.new _ callee args) => .expr e :: callee.nodes deep ++ exprNodes deep args
  | e@(.seq _ exprs) => .expr e :: exprNodes deep exprs
  | e@(.ident name) => [.expr e, .name name]
  | e => [.expr e]

def elemNodes (deep : Bool) : List (Option Expr) → List Node
  | [] => []
  | none :: rest => elemNodes deep rest
  | some e :: rest => e.nodes deep ++ elemNodes deep rest

def exprNodes (deep : Bool) : List Expr → List Node
  | [] => []
  | e :: rest => e.nodes deep ++ exprNodes deep rest

def exprNodes? (deep : Bool) : Option Expr → List Node
  | none => []
  | some e => e.nodes deep

def PropertyKey.nodes (deep : Bool) : PropertyKey → List Node
  | .computed e => e.nodes deep
  | _ => []

def Property.nodes (deep : Bool) : Property → List Node
  | .value _ key value => key.nodes deep ++ value.nodes deep
  | .getter _ key fn => key.nodes deep ++ fn.nodes deep
  | .setter _ key fn => key.nodes deep ++ fn.nodes deep

def propNodes (deep : Bool) : List Property → List Node
  | [] => []
  | p :: rest => p.nodes deep ++ propNodes deep rest

def Func.nodes (deep : Bool) : Func → List Node
  | f@⟨_, params, body⟩ => .func f :: if deep then params.map .name ++ body.nodes deep else []

def Block.nodes (deep : Bool) : Block → List Node
  | ⟨_, stmts⟩ => stmtNodes deep stmts

def blockNodes? (deep : Bool) : Option Block → List Node
  | none => []
  | some b => b.nodes deep

def Declarator.nodes (deep : Bool) : Declarator → List Node
  | ⟨_, name, init⟩ => .name name :: exprNodes? deep init

def declNodes (deep : Bool) : List Declarator → List Node
  | [] => []
  | d :: rest => d.nodes deep ++ declNodes deep rest

def VarDecl.nodes (deep : Bool) : VarDecl → List Node
  | d@⟨_, _, decls⟩ => .decl d :: declNodes deep decls

def ForHead.nodes (deep : Bool) : ForHead → List Node
  | .decl d => d.nodes deep
  | .expr e => e.nodes deep

/-- The nodes in front of the `in` of a `for-in` loop. -/
def ForHead.loopNodes (deep : Bool) : ForHead → List Node
  | .decl d@⟨_, _, decls⟩ => .loopDecl d :: declNodes deep decls
  | .expr e => e.nodes deep

def headNodes? (deep : Bool) : Option ForHead → List Node
  | none => []
  | some h => h.nodes deep

def CatchClause.nodes (deep : Bool) : CatchClause → List Node
  | ⟨_, param, body⟩ => Node.name? param ++ body.nodes deep

def handlerNodes? (deep : Bool) : Option CatchClause → List Node
  | none => []
  | some c => c.nodes deep

/-- The nodes of a statement. The insides of functions are listed only if `deep`. -/
def Stmt.nodes (deep : Bool) : Stmt → List Node
  | s@(.block b) => .stmt s :: b.nodes deep
  | s@(.expr _ e) => .stmt s :: e.nodes deep
  | s@(.var d) => .stmt s :: d.nodes deep
  | s@(.function _ name fn) => .stmt s :: .name name :: fn.nodes deep
  | s@(.if _ test yes no) =>
    .stmt s :: test.nodes deep ++ yes.nodes deep ++
      stmtNodes? deep no
  | s@(.for _ init test update body) =>
    .stmt s :: headNodes? deep init ++
      exprNodes? deep test ++ exprNodes? deep update ++ body.nodes deep
  | s@(.forIn _ head obj body) =>
    .stmt s :: head.loopNodes deep ++ obj.nodes deep ++ body.nodes deep
  | s@(.while _ test body) => .stmt s :: test.nodes deep ++ body.nodes deep
  | s@(.doWhile _ body test) => .stmt s :: body.nodes deep ++ test.nodes deep
  | s@(.return _ arg) => .stmt s :: exprNodes? deep arg
  | s@(.labeled _ _ body) => .stmt s :: body.nodes deep
  | s@(.throw _ arg) => .stmt s :: arg.nodes deep
  | s@(.with _ obj body) => .stmt s :: obj.nodes deep ++ body.nodes deep
  | s@(.try _ block handler finalizer) =>
    .stmt s :: block.nodes deep ++ handlerNodes? deep handler ++ blockNodes? deep finalizer
  | s => [.stmt s]

def stmtNodes? (deep : Bool) : Option Stmt → List Node
  | none => []
  | some s => s.nodes deep

def stmtNodes (deep : Bool) : List Stmt → List Node
  | [] => []
  | s :: rest => s.nodes deep ++ stmtNodes deep rest

end

/-- Everything in a program, functions included. -/
def Program.nodes (p : Program) : List Node := stmtNodes true p.body

/-! ## Questions -/

namespace Node

/-- The name of a variable, label or property after a point. -/
def usedName? : Node → Option String
  | Node.name i => some i.name
  | .stmt (.labeled _ label _) => some label.name
  | .expr (.member _ _ property) => some property.name
  | _ => none

def isJump : Node → Bool
  | .stmt (.break _ _) | .stmt (.continue _ _) => true
  | _ => false

def isFunctionDecl : Node → Bool
  | .stmt (.function _ _ _) => true
  | _ => false

/-- The names that a `var` declares. -/
def varNames : Node → List Ident
  | .decl d | .loopDecl d => if d.kind == .var then d.decls.map (·.name) else []
  | _ => []

def func? : Node → Option Func
  | .func fn => some fn
  | _ => none

/-- The name and function of a function declaration. -/
def functionDecl? : Node → Option (Ident × Func)
  | .stmt (.function _ i fn) => some (i, fn)
  | _ => none

end Node

/-- The functions of a program, each before those inside it. -/
def Program.functions (p : Program) : List Func := p.nodes.filterMap Node.func?

/-- The names that occur in a program, so that a name outside the list clashes with nothing. -/
def Program.usedNames (p : Program) : List String := p.nodes.filterMap Node.usedName?

/-- Whether there is a `break` or `continue` in a statement, outside functions in it. -/
def Stmt.containsJump (s : Stmt) : Bool := (s.nodes false).any Node.isJump

/-- Whether a function is declared in a statement, outside functions in it. -/
def Stmt.containsFunctionDecl (s : Stmt) : Bool := (s.nodes false).any Node.isFunctionDecl

/-- The names that a statement declares with `var`, outside functions in it. -/
def Stmt.varNames (s : Stmt) : List Ident := (s.nodes false).flatMap Node.varNames

end EsOptimizer
