import EsOptimizer.Syntax.Edit

/-!
# Transforming the tree

One traversal serves all changes to a program. It works from the leaves up: the parts of a node are
done first, then a hook of the `Transform` sees the node with its new parts. A change is the choice
of the hooks.
-/

namespace EsOptimizer

/-- What an expression is to the node around it. -/
inductive Role where
  | value
  /-- The operand of an assignment, update or `delete`. -/
  | target
  /-- The expression that a `for-in` loop assigns to. -/
  | loopTarget
  | callee
deriving DecidableEq

/-- Where a statement stands. -/
inductive Place where
  /-- In a list of statements. -/
  | listed
  /-- Where exactly one statement can stand, such as the body of a loop. -/
  | alone
deriving DecidableEq

/-- The choices that make up a change. -/
structure Transform where
  /-- Whether to change the parts of an expression, and the expression itself. -/
  enter : Role → Expr → Bool := fun _ _ => true
  /-- Whether to change functions. -/
  enterFunctions : Bool := true
  /-- The expression that takes the place of one whose parts are done. -/
  expr : Role → Expr → Edit Expr := fun _ e => pure e
  /-- The statements that take the place of one, given as it was and with its parts done. -/
  stmt : Place → (before after : Stmt) → Edit (List Stmt) := fun _ _ s => pure [s]
  /-- The list that takes the place of a list whose members are done; `isBody` tells the body of a
  function or program from other lists. -/
  list : (isBody : Bool) → List Stmt → Edit (List Stmt) := fun _ ss => pure ss
  /-- The function that takes the place of one whose parts are done. -/
  func : Func → Edit Func := fun f => pure f

namespace Transform

/-- The parts of a callee stand by themselves. -/
def roleUnder (role part : Role) : Role := if role = .callee then .value else part

/-- A statement where exactly one can stand, as it was and with its parts done. -/
def alone (t : Transform) (before after : Stmt) : Edit Stmt := do
  Make.single (← t.stmt .alone before after)

/-- An expression, given how its parts are done. -/
def replaced (t : Transform) (role : Role) (e : Expr) (parts : Edit Expr) : Edit Expr := do
  if t.enter role e then t.expr role (← parts) else return e

/-- The role of a unary operand. -/
def operandRole (op : UnaryOp) : Role := if op = .delete then .target else .value

mutual

def onExpr (t : Transform) (e : Expr) (role : Role) : Edit Expr :=
  t.replaced role e (
    match e with
    | .array id elems => do return .array id (← onElems t elems)
    | .object id props => do return .object id (← onProps t props)
    | .function id name fn => do return .function id name (← onFunc t fn)
    | .unary id op arg => do return .unary id op (← onExpr t arg (roleUnder role (operandRole op)))
    | .update id op before arg => do
      return .update id op before (← onExpr t arg (roleUnder role .target))
    | .binary id op left right => do
      return .binary id op (← onExpr t left .value) (← onExpr t right .value)
    | .assign id op left right => do
      return .assign id op (← onExpr t left (roleUnder role .target)) (← onExpr t right .value)
    | .member id obj name => do return .member id (← onExpr t obj .value) name
    | .index id obj key => do return .index id (← onExpr t obj .value) (← onExpr t key .value)
    | .cond id test yes no => do
      return .cond id (← onExpr t test .value) (← onExpr t yes .value) (← onExpr t no .value)
    | .call id callee args => do
      return .call id (← onExpr t callee (roleUnder role .callee)) (← onExprs t args)
    | .new id callee args => do
      return .new id (← onExpr t callee (roleUnder role .callee)) (← onExprs t args)
    | .seq id exprs => do return .seq id (← onExprs t exprs)
    | e => pure e)

def onElems (t : Transform) : List (Option Expr) → Edit (List (Option Expr))
  | [] => return []
  | none :: rest => return none :: (← onElems t rest)
  | some e :: rest => return some (← onExpr t e .value) :: (← onElems t rest)

def onExprs (t : Transform) : List Expr → Edit (List Expr)
  | [] => return []
  | e :: rest => return (← onExpr t e .value) :: (← onExprs t rest)

def onExpr? (t : Transform) : Option Expr → Edit (Option Expr)
  | none => return none
  | some e => return some (← onExpr t e .value)

def onKey (t : Transform) : PropertyKey → Edit PropertyKey
  | .computed e => return .computed (← onExpr t e .value)
  | key => return key

def onProperty (t : Transform) : Property → Edit Property
  | .value id key value => return .value id (← onKey t key) (← onExpr t value .value)
  | .getter id key fn => return .getter id (← onKey t key) (← onFunc t fn)
  | .setter id key fn => return .setter id (← onKey t key) (← onFunc t fn)

def onProps (t : Transform) : List Property → Edit (List Property)
  | [] => return []
  | p :: rest => return (← onProperty t p) :: (← onProps t rest)

def onFunc (t : Transform) : Func → Edit Func
  | ⟨id, params, ⟨bodyId, stmts⟩⟩ => do
    if !t.enterFunctions then return ⟨id, params, ⟨bodyId, stmts⟩⟩
    t.func ⟨id, params, ⟨bodyId, ← t.list true (← onStmts t stmts)⟩⟩

def onBlock (t : Transform) : Block → Edit Block
  | ⟨id, stmts⟩ => return ⟨id, ← t.list false (← onStmts t stmts)⟩

def onBlock? (t : Transform) : Option Block → Edit (Option Block)
  | none => return none
  | some b => return some (← onBlock t b)

def onDeclarators (t : Transform) : List Declarator → Edit (List Declarator)
  | [] => return []
  | ⟨id, name, init⟩ :: rest => return ⟨id, name, ← onExpr? t init⟩ :: (← onDeclarators t rest)

def onDecl (t : Transform) : VarDecl → Edit VarDecl
  | ⟨id, kind, decls⟩ => return ⟨id, kind, ← onDeclarators t decls⟩

def onHead (t : Transform) : ForHead → Role → Edit ForHead
  | .decl d, _ => return .decl (← onDecl t d)
  | .expr e, role => return .expr (← onExpr t e role)

def onHead? (t : Transform) : Option ForHead → Edit (Option ForHead)
  | none => return none
  | some h => return some (← onHead t h .value)

def onHandler? (t : Transform) : Option CatchClause → Edit (Option CatchClause)
  | none => return none
  | some ⟨id, param, body⟩ => return some ⟨id, param, ← onBlock t body⟩

/-- A statement with its parts done. -/
def onParts (t : Transform) : Stmt → Edit Stmt
  | .block b => return .block (← onBlock t b)
  | .expr id e => return .expr id (← onExpr t e .value)
  | .var d => return .var (← onDecl t d)
  | .function id name fn => return .function id name (← onFunc t fn)
  | .if id test yes no =>
    return .if id (← onExpr t test .value) (← alone t yes (← onParts t yes)) (← onAlone? t no)
  | .for id init test update body =>
    return .for id (← onHead? t init) (← onExpr? t test) (← onExpr? t update)
      (← alone t body (← onParts t body))
  | .forIn id head obj body =>
    return .forIn id (← onHead t head .loopTarget) (← onExpr t obj .value)
      (← alone t body (← onParts t body))
  | .while id test body =>
    return .while id (← onExpr t test .value) (← alone t body (← onParts t body))
  | .doWhile id body test =>
    return .doWhile id (← alone t body (← onParts t body)) (← onExpr t test .value)
  | .return id arg => return .return id (← onExpr? t arg)
  | .labeled id label body =>
    return .labeled id label (← alone t body (← onParts t body))
  | .throw id arg => return .throw id (← onExpr t arg .value)
  | .with id obj body =>
    return .with id (← onExpr t obj .value) (← alone t body (← onParts t body))
  | .try id block handler finalizer =>
    return .try id (← onBlock t block) (← onHandler? t handler) (← onBlock? t finalizer)
  | s => return s

def onAlone? (t : Transform) : Option Stmt → Edit (Option Stmt)
  | none => return none
  | some s => return some (← alone t s (← onParts t s))

/-- The members of a list, each replaced by what its hook gives. -/
def onStmts (t : Transform) : List Stmt → Edit (List Stmt)
  | [] => return []
  | s :: rest => return (← t.stmt .listed s (← onParts t s)) ++ (← onStmts t rest)

end

/-- Changes a whole program. -/
def onProgram (t : Transform) (p : Program) : Edit Program :=
  return { p with body := ← t.list true (← onStmts t p.body) }

/-- Applies a change to a program and tells whether anything changed. -/
def run (t : Transform) (src : Source) (taken : List String) : Source × Bool :=
  let (program, s) := (t.onProgram src.program).run ⟨src.nextId, false, taken⟩
  (⟨program, s.nextId⟩, s.changed)

end Transform

end EsOptimizer
