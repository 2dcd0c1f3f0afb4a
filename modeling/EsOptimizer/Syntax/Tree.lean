import EsOptimizer.Number.Basic
import EsOptimizer.Syntax.Operator

/-!
# The syntax tree

Statements and expressions as one family of inductive types. Every node carries an id, which names
the node in the facts of an analysis; ids survive changes to other parts of the tree.

A name stands in the tree as an `Ident`: where it binds or refers to a variable, but also as a
label, after a point, or as a property name.
-/

namespace EsOptimizer

/-- The identity of a node within one program. -/
abbrev NodeId := Nat

/-- The id of nodes that belong to no program. -/
def NodeId.dummy : NodeId := 4294967295

/-- An occurrence of a name. -/
structure Ident where
  id : NodeId
  name : String
deriving DecidableEq, Repr

/-- The three words that declare variables. -/
inductive DeclKind where
  | var | let | const
deriving DecidableEq, Repr

def DeclKind.text : DeclKind → String
  | .var => "var"
  | .let => "let"
  | .const => "const"

mutual

inductive Expr where
  | this (id : NodeId)
  /-- An array literal; a missing element is a hole. -/
  | array (id : NodeId) (elems : List (Option Expr))
  | object (id : NodeId) (props : List Property)
  | function (id : NodeId) (name : Option Ident) (fn : Func)
  | unary (id : NodeId) (op : UnaryOp) (arg : Expr)
  /-- `++a` if `before`, else `a++`. -/
  | update (id : NodeId) (op : UpdateOp) (before : Bool) (arg : Expr)
  | binary (id : NodeId) (op : BinaryOp) (left right : Expr)
  | assign (id : NodeId) (op : AssignOp) (left right : Expr)
  /-- `a.b` -/
  | member (id : NodeId) (obj : Expr) (name : Ident)
  /-- `a[b]` -/
  | index (id : NodeId) (obj key : Expr)
  | cond (id : NodeId) (test yes no : Expr)
  | call (id : NodeId) (callee : Expr) (args : List Expr)
  | new (id : NodeId) (callee : Expr) (args : List Expr)
  | seq (id : NodeId) (exprs : List Expr)
  | ident (name : Ident)
  | string (id : NodeId) (value : String)
  | bool (id : NodeId) (value : Bool)
  | null (id : NodeId)
  | number (id : NodeId) (value : Number)
  | regex (id : NodeId) (body flags : String)
  /-- The place of an expression that was taken out. -/
  | invalid (id : NodeId)

/-- The name of a property in an object literal. -/
inductive PropertyKey where
  | ident (name : Ident)
  | string (id : NodeId) (value : String)
  | number (id : NodeId) (value : Number)
  | computed (expr : Expr)

inductive Property where
  | value (id : NodeId) (key : PropertyKey) (value : Expr)
  | getter (id : NodeId) (key : PropertyKey) (fn : Func)
  | setter (id : NodeId) (key : PropertyKey) (fn : Func)

/-- Parameters and body, common to declarations, expressions and accessors. -/
structure Func where
  id : NodeId
  params : List Ident
  body : Block

structure Block where
  id : NodeId
  stmts : List Stmt

structure Declarator where
  id : NodeId
  name : Ident
  init : Option Expr

structure VarDecl where
  id : NodeId
  kind : DeclKind
  decls : List Declarator

/-- What may stand first in the head of a loop: a declaration or an expression. -/
inductive ForHead where
  | decl (decl : VarDecl)
  | expr (expr : Expr)

structure CatchClause where
  id : NodeId
  param : Option Ident
  body : Block

inductive Stmt where
  | block (block : Block)
  | empty (id : NodeId)
  | expr (id : NodeId) (expr : Expr)
  | var (decl : VarDecl)
  | function (id : NodeId) (name : Ident) (fn : Func)
  | if (id : NodeId) (test : Expr) (yes : Stmt) (no : Option Stmt)
  | for (id : NodeId) (init : Option ForHead) (test update : Option Expr) (body : Stmt)
  | forIn (id : NodeId) (head : ForHead) (obj : Expr) (body : Stmt)
  | while (id : NodeId) (test : Expr) (body : Stmt)
  | doWhile (id : NodeId) (body : Stmt) (test : Expr)
  | return (id : NodeId) (arg : Option Expr)
  | break (id : NodeId) (label : Option Ident)
  | continue (id : NodeId) (label : Option Ident)
  | labeled (id : NodeId) (label : Ident) (body : Stmt)
  | throw (id : NodeId) (arg : Expr)
  | with (id : NodeId) (obj : Expr) (body : Stmt)
  | try (id : NodeId) (block : Block) (handler : Option CatchClause) (finalizer : Option Block)

end

deriving instance Inhabited for Expr, Stmt, Block, Func

structure Program where
  id : NodeId
  body : List Stmt

/-- A program together with the first id that none of its nodes uses. -/
structure Source where
  program : Program
  nextId : NodeId

/-! ## Ids -/

def Expr.id : Expr → NodeId
  | .this id | .array id _ | .object id _ | .function id _ _ | .unary id _ _ | .update id _ _ _
  | .binary id _ _ _ | .assign id _ _ _ | .member id _ _ | .index id _ _ | .cond id _ _ _
  | .call id _ _ | .new id _ _ | .seq id _ | .string id _ | .bool id _ | .null id | .number id _
  | .regex id _ _ | .invalid id => id
  | .ident name => name.id

def Property.id : Property → NodeId
  | .value id _ _ | .getter id _ _ | .setter id _ _ => id

def Property.key : Property → PropertyKey
  | .value _ key _ | .getter _ key _ | .setter _ key _ => key

def Stmt.id : Stmt → NodeId
  | .block b => b.id
  | .var d => d.id
  | .empty id | .expr id _ | .function id _ _ | .if id _ _ _ | .for id _ _ _ _ | .forIn id _ _ _
  | .while id _ _ | .doWhile id _ _ | .return id _ | .break id _ | .continue id _
  | .labeled id _ _ | .throw id _ | .with id _ _ | .try id _ _ _ => id

/-! ## Shapes -/

/-- The name of an expression that is just a name. -/
def Expr.ident? : Expr → Option Ident
  | .ident name => some name
  | _ => none

/-- Whether an expression can be assigned to. -/
def Expr.isTarget : Expr → Bool
  | .ident _ | .member _ _ _ | .index _ _ _ => true
  | _ => false

/-- Whether an expression is a literal of a primitive value or a regular expression. -/
def Expr.isLiteral : Expr → Bool
  | .string _ _ | .bool _ _ | .null _ | .number _ _ | .regex _ _ _ => true
  | _ => false

def Stmt.isLoop : Stmt → Bool
  | .for _ _ _ _ _ | .forIn _ _ _ _ | .while _ _ _ | .doWhile _ _ _ => true
  | _ => false

/-- Whether a statement declares a name whose reach is the block around it. -/
def Stmt.declaresBlockScoped : Stmt → Bool
  | .var d => d.kind != .var
  | .function _ _ _ => true
  | _ => false

mutual

/-- Whether a statement leaves its list on every path, so that what follows it is unreachable. -/
def Stmt.isAbrupt : Stmt → Bool
  | .return _ _ | .break _ _ | .continue _ _ | .throw _ _ => true
  | .block ⟨_, stmts⟩ => anyAbrupt stmts
  | .if _ _ yes no =>
    match no with
    | some no => yes.isAbrupt && no.isAbrupt
    | none => false
  | _ => false

/-- Whether one of the statements leaves the list on every path. -/
def anyAbrupt : List Stmt → Bool
  | [] => false
  | s :: rest => s.isAbrupt || anyAbrupt rest

end

end EsOptimizer
