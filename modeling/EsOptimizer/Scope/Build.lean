import EsOptimizer.Host.Object
import EsOptimizer.Scope.Basic

/-!
# Resolving names

One walk over a program builds its scopes. On entry to a function, or to the program, its `var`s and
function declarations are declared; on entry to a block its `let`s and `const`s. Every name is then
resolved from the scope that it stands in outwards. A name that is declared nowhere becomes a
variable of the outermost scope.
-/

namespace EsOptimizer

/-- What the walk carries along. -/
structure Resolution where
  tree : ScopeTree
  /-- The scope that the walk is in. -/
  current : ScopeId := ScopeTree.root
  /-- The functions that the walk is in, innermost first. -/
  functions : List NodeId := []

/-- A step of the walk. -/
abbrev Resolve := StateM Resolution

namespace Resolve

def modifyTree (f : ScopeTree → ScopeTree) : Resolve Unit :=
  modify fun r => { r with tree := f r.tree }

/-- The scope of the function, or program, that the walk is in. -/
def fnScope : Resolve ScopeId := do
  let r ← get
  return (r.tree.scope r.current).fnScope

/-- Opens a scope for a node, and enters it. -/
def openScope (kind : ScopeKind) (node : NodeId) : Resolve ScopeId := do
  let r ← get
  let id := r.tree.scopes.size
  let fnScope ← match kind with
    | .function _ => pure id
    | _ => fnScope
  modifyTree fun t => { t with
    scopes := t.scopes.push { parent := some r.current, kind, fnScope }
    nodeScopes := t.nodeScopes.insert node id }
  modify fun r => { r with current := id }
  return id

/-- Runs a step and returns to the scope that the walk was in before. -/
def inside (step : Resolve Unit) : Resolve Unit := do
  let outer := (← get).current
  step
  modify fun r => { r with current := outer }

def bind (ident : Ident) (v : VarId) : Resolve Unit :=
  modifyTree fun t => { t with identVars := t.identVars.insert ident.id v }

def newVar (scope : ScopeId) (name : String) (kind : VarKind) (decl : Option NodeId)
    (initial : Option Value) : Resolve VarId := do
  let t := (← get).tree
  let id := t.vars.size
  modifyTree fun t => { t with
    vars := t.vars.push { name, kind, scope, fnScope := (t.scope scope).fnScope, decl, initial }
    scopes := t.scopes.modify scope fun s => { s with vars := s.vars ++ [(name, id)] } }
  return id

/-- Declares a name in a scope, unless it is declared there already. -/
def declareIn (scope : ScopeId) (ident : Ident) (kind : VarKind) : Resolve VarId := do
  let known := ((← get).tree.scope scope).vars.lookup ident.name
  let v ← match known with
    | some v => pure v
    | none =>
      newVar scope ident.name kind (some ident.id) (if kind = .var then some .undefined else none)
  bind ident v
  return v

/-- Declares what a function, or program, with this body has from the start. -/
def hoist (body : List Stmt) : Resolve Unit := do
  let nodes := stmtNodes false body
  let scope ← fnScope
  for ident in nodes.flatMap Node.varNames do
    discard (declareIn scope ident .var)
  for (ident, fn) in nodes.filterMap Node.functionDecl? do
    let v ← declareIn scope ident .function
    modifyTree fun t => { t with
      scopes := t.scopes.modify scope fun s => { s with hoisted := s.hoisted ++ [(v, fn.id)] } }

/-- The kind of the variables of a declaration whose reach is a block. -/
def lexicalKind? : DeclKind → Option VarKind
  | .var => none
  | .let => some .let
  | .const => some .const

/-- Declares the names of a `let` or `const` in the scope that the walk is in. -/
def declareLexical (d : VarDecl) : Resolve Unit := do
  match lexicalKind? d.kind with
  | none => return
  | some kind =>
    for x in d.decls do
      discard (declareIn (← get).current x.name kind)

/-- Declares the `let`s and `const`s that stand directly in a list. -/
def declareLexicals (stmts : List Stmt) : Resolve Unit := do
  for s in stmts do
    match s with
    | .var d => declareLexical d
    | _ => pure ()

def modifyFunction (f : FunctionInfo → FunctionInfo) : Resolve Unit := do
  match (← get).functions with
  | [] => return
  | id :: _ => modifyTree fun t => { t with functions := t.functions.modify id f }

/-- The variable that a name refers to. A function's own `arguments` is no variable. -/
def resolve (ident : Ident) : Resolve (Option VarId) := do
  let r ← get
  match r.tree.lookup r.current ident.name with
  | some v => return some v
  | none =>
    if ident.name = "arguments" && !r.functions.isEmpty then
      modifyFunction fun f => { f with usesArguments := true }
      return none
    else
      return some (← newVar ScopeTree.root ident.name .implicit none (Host.global? ident.name))

/-- Notes what an occurrence of a name does to its variable. -/
def addSite (ident : Ident) (kind : SiteKind) : Resolve (Option VarId) := do
  match ← resolve ident with
  | none => return none
  | some v =>
    let fnScope ← fnScope
    let site : Site := ⟨ident.id, fnScope, kind⟩
    bind ident v
    modifyTree fun t =>
      let x := t.var v
      let inner := x.fnScope != fnScope
      { t with
        sites := t.sites.insert ident.id kind
        captured := if inner && !x.isGlobal then t.captured.insert v else t.captured
        sharedGlobals := if inner && x.isGlobal then t.sharedGlobals.insert v else t.sharedGlobals
        vars := t.vars.modify v fun x =>
          if kind.isWrite then { x with writes := x.writes ++ [site] }
          else { x with reads := x.reads ++ [site] } }
    return some v

def noteSite (ident : Ident) (kind : SiteKind) : Resolve Unit := discard (addSite ident kind)

/-- Notes that names may mean something else when the program runs. -/
def noteDynamicScope : Resolve Unit := modifyTree fun t => { t with hasDynamicScope := true }

/-- Notes a call of a name. A call of the global `eval` sees the names around it. -/
def noteCallee (ident : Ident) : Resolve Unit := do
  match ← addSite ident .callee with
  | none => return
  | some v =>
    if ident.name = "eval" && ((← get).tree.var v).kind = .implicit then noteDynamicScope

/-- The name under which a function is entered. -/
inductive FunctionName where
  | none
  | declared (name : Ident)
  /-- The own name of a function expression. -/
  | own (name : Ident)

/-- The variable of a function's name. A parameter or declaration of the same name hides the own
name of a function expression. -/
def nameVar (scope : ScopeId) : FunctionName → Resolve (Option VarId)
  | .none => return none
  | .declared ident => return (← get).tree.varOf ident.id
  | .own ident => do
    if (((← get).tree.scope scope).vars.lookup ident.name).isSome then return none
    let v ← declareIn scope ident .ownName
    noteSite ident .init
    return some v

/-- Enters a function: declares its parameters, what its body declares from the start, and its own
name. -/
def enterFunction (name : FunctionName) (id : NodeId) (params : List Ident) (bodyId : NodeId)
    (body : List Stmt) : Resolve Unit := do
  let scope ← openScope (.function id) id
  modifyTree fun t => { t with nodeScopes := t.nodeScopes.insert bodyId scope }
  modify fun r => { r with functions := id :: r.functions }
  let params ← params.mapM fun p => do
    let v ← declareIn scope p .param
    noteSite p .init
    return v
  modifyTree fun t => { t with functions := t.functions.insert id { scope, params } }
  hoist body
  declareLexicals body
  let nameVar ← nameVar scope name
  let isDecl := name matches .declared _
  modifyFunction fun f => { f with nameVar, isDecl }

def leaveFunction : Resolve Unit := modify fun r => { r with functions := r.functions.tail }

/-- Opens a scope for the head of a loop if it declares names whose reach is the loop. -/
def openLoop (id : NodeId) : Option ForHead → Resolve Unit
  | some (.decl d) => do
    if d.kind ≠ .var then
      discard (openScope (.block id) id)
      declareLexical d
  | _ => return

/-! ## The walk -/

mutual

def onExpr : Expr → Resolve Unit
  | .this _ => modifyFunction fun f => { f with usesThis := true }
  | .array _ elems => onElems elems
  | .object _ props => onProps props
  | .function _ name fn => onFunc fn (name.elim .none .own)
  | .unary _ _ arg => onExpr arg
  | .update _ _ _ (.ident i) => noteSite i .compound
  | .update _ _ _ arg => onExpr arg
  | .binary _ _ left right => do onExpr left; onExpr right
  | .assign _ op (.ident i) right => do
    noteSite i (if op = .assign then .assign else .compound)
    onExpr right
  | .assign _ .assign (.member _ (.ident o) _) right => do
    noteSite o .propertyWrite
    onExpr right
  | .assign _ .assign (.index _ (.ident o) key) right => do
    noteSite o .propertyWrite
    onExpr key
    onExpr right
  | .assign _ _ left right => do onExpr left; onExpr right
  | .member _ obj _ => onExpr obj
  | .index _ obj key => do onExpr obj; onExpr key
  | .cond _ test yes no => do onExpr test; onExpr yes; onExpr no
  | .call _ (.ident i) args => do noteCallee i; onExprs args
  | .call _ callee args => do onExpr callee; onExprs args
  | .new _ callee args => do onExpr callee; onExprs args
  | .seq _ exprs => onExprs exprs
  | .ident i => noteSite i .read
  | .string _ _ | .bool _ _ | .null _ | .number _ _ | .regex _ _ _ | .invalid _ => return

def onElems : List (Option Expr) → Resolve Unit
  | [] => return
  | none :: rest => onElems rest
  | some e :: rest => do onExpr e; onElems rest

def onExprs : List Expr → Resolve Unit
  | [] => return
  | e :: rest => do onExpr e; onExprs rest

def onExpr? : Option Expr → Resolve Unit
  | none => return
  | some e => onExpr e

def onKey : PropertyKey → Resolve Unit
  | .computed e => onExpr e
  | _ => return

def onProperty : Property → Resolve Unit
  | .value _ key value => do onKey key; onExpr value
  | .getter _ key fn => do onKey key; onFunc fn .none
  | .setter _ key fn => do onKey key; onFunc fn .none

def onProps : List Property → Resolve Unit
  | [] => return
  | p :: rest => do onProperty p; onProps rest

def onFunc : Func → FunctionName → Resolve Unit
  | ⟨id, params, ⟨bodyId, stmts⟩⟩, name => inside do
    enterFunction name id params bodyId stmts
    onStmts stmts
    leaveFunction

def onBlock : Block → Resolve Unit
  | ⟨id, stmts⟩ => inside do
    discard (openScope (.block id) id)
    declareLexicals stmts
    onStmts stmts

def onBlock? : Option Block → Resolve Unit
  | none => return
  | some b => onBlock b

def onDeclarators : List Declarator → Resolve Unit
  | [] => return
  | ⟨_, name, init⟩ :: rest => do
    match init with
    | some e =>
      noteSite name .init
      onExpr e
    | none =>
      let r ← get
      match r.tree.lookup r.current name.name with
      | some v => bind name v
      | none => pure ()
    onDeclarators rest

def onHead : ForHead → Resolve Unit
  | .decl ⟨_, _, decls⟩ => onDeclarators decls
  | .expr e => onExpr e

def onHead? : Option ForHead → Resolve Unit
  | none => return
  | some h => onHead h

/-- The names in front of the `in` of a loop are written by the loop. -/
def onLoopHead : ForHead → Resolve Unit
  | .decl d => d.decls.forM fun x => noteSite x.name .forIn
  | .expr (.ident i) => noteSite i .forIn
  | .expr e => onExpr e

def onHandler? : Option CatchClause → Resolve Unit
  | none => return
  | some ⟨id, param, body⟩ => inside do
    let scope ← openScope (.catch id) id
    match param with
    | some p =>
      discard (declareIn scope p .catchParam)
      noteSite p .init
    | none => pure ()
    onBlock body

def onStmt : Stmt → Resolve Unit
  | .block b => onBlock b
  | .expr _ e => onExpr e
  | .var ⟨_, _, decls⟩ => onDeclarators decls
  | .function _ name fn => do
    noteSite name .init
    onFunc fn (.declared name)
  | .if _ test yes no => do onExpr test; onStmt yes; onStmt? no
  | .for id init test update body => inside do
    openLoop id init
    onHead? init
    onExpr? test
    onExpr? update
    onStmt body
  | .forIn id head obj body => inside do
    openLoop id (some head)
    onLoopHead head
    onExpr obj
    onStmt body
  | .while _ test body => do onExpr test; onStmt body
  | .doWhile _ body test => do onStmt body; onExpr test
  | .return _ arg => onExpr? arg
  | .labeled _ _ body => onStmt body
  | .throw _ arg => onExpr arg
  | .with _ obj body => do
    noteDynamicScope
    onExpr obj
    onStmt body
  | .try _ block handler finalizer => do
    onBlock block
    onHandler? handler
    onBlock? finalizer
  | .empty _ | .break _ _ | .continue _ _ => return

def onStmt? : Option Stmt → Resolve Unit
  | none => return
  | some s => onStmt s

def onStmts : List Stmt → Resolve Unit
  | [] => return
  | s :: rest => do onStmt s; onStmts rest

end

end Resolve

/-- The scopes of a program. -/
def ScopeTree.ofProgram (p : Program) : ScopeTree :=
  let start : Resolution :=
    { tree := {
        scopes := #[{ parent := none, kind := .program, fnScope := root }]
        nodeScopes := Std.TreeMap.empty.insert p.id root } }
  let walk : Resolve Unit := do
    Resolve.hoist p.body
    Resolve.declareLexicals p.body
    Resolve.onStmts p.body
  (walk.run start).2.tree

end EsOptimizer
