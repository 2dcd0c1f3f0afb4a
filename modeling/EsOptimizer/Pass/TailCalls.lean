import EsOptimizer.Analysis
import EsOptimizer.Syntax.Transform

/-!
# Tail calls

A function that ends by calling itself

    function f(n) { if (n === 0) return 0; return f(n - 1); }

becomes a loop:

    function f(n) { tail: while (true) { if (n === 0) return 0; n = n - 1; continue tail; } }

The body then runs several times in one call, so it must not depend on being entered afresh: no
variable of it is captured, every `var` has an initializer, no function is declared in it, and no
`try` stands around the call.
-/

namespace EsOptimizer

namespace TailCalls

/-- A function that may call itself. -/
structure Target where
  /-- The variable that holds the function. -/
  self : VarId
  params : List (String × VarId)

/-- The arguments of a tail call. -/
def Target.args? (t : Target) (scopes : ScopeTree) : Stmt → Option (List Expr)
  | .return _ (some (.call _ (.ident callee) args)) =>
    if args.length ≤ t.params.length && scopes.varOf callee.id == some t.self then some args
    else none
  | _ => none

/-- Whether a `var` gets no value where it stands. -/
def lacksValue (d : VarDecl) : Bool := d.kind == .var && d.decls.any (·.init.isNone)

/-- Whether a part of a body rules out that the body is repeated. -/
def blocksLoop : Node → Bool
  | .stmt (.try _ _ _ _) | .stmt (.function _ _ _) => true
  | .decl d => lacksValue d
  | _ => false

/-- Whether a part of a body is a tail call. -/
def Target.isCall (t : Target) (scopes : ScopeTree) : Node → Bool
  | .stmt s => (t.args? scopes s).isSome
  | _ => false

/-- Whether an inner function uses a variable of the function with the given scope. -/
def isCaptured (scopes : ScopeTree) (scope : ScopeId) : Bool :=
  scopes.captured.toList.any fun v => (scopes.var v).fnScope == scope

/-- Whether nothing but calls with other arguments tells one activation from another. -/
def isRepeatable (scopes : ScopeTree) (info : FunctionInfo) (fn : Func) : Bool :=
  !info.usesArguments && !info.usesThis && !isCaptured scopes info.scope &&
    (fn.params.map (·.name)).Nodup && !(fn.body.nodes false).any blocksLoop

/-- A function with tail calls that can be made a loop. -/
def target? (scopes : ScopeTree) (fn : Func) : Option Target :=
  match scopes.function? fn.id with
  | none => none
  | some info =>
    match info.nameVar with
    | none => none
    | some self =>
      let t : Target := ⟨self, (fn.params.map (·.name)).zip info.params⟩
      if (scopes.var self).writes.length == 1 && isRepeatable scopes info fn &&
          (fn.body.nodes false).any (t.isCall scopes)
      then some t
      else none

/-- Whether a variable occurs in an expression. -/
def mentions (scopes : ScopeTree) (v : VarId) (e : Expr) : Bool :=
  (e.nodes true).any fun n => match n with
    | .name i => scopes.varOf i.id == some v
    | _ => false

/-- Whether an expression just reads a variable. -/
def isRead (scopes : ScopeTree) (v : VarId) : Expr → Bool
  | .ident i => scopes.varOf i.id == some v
  | _ => false

def assignStmt (name : String) (value : Expr) : Edit Stmt := do
  Make.expr (← Make.assign name value)

/-- Gives parameters their next values from left to right. A parameter that a later argument still
reads gets its value at the end, from a variable that holds it meanwhile; one that keeps its value
gets none; one without an argument gets `undefined`. The result is what comes first and what comes
at the end. -/
def passArgs (scopes : ScopeTree) : List (String × VarId) → List Expr → Edit (List Stmt × List Stmt)
  | params, [] => do
    return ([], ← params.mapM fun (name, _) => do assignStmt name (← Make.undefined))
  | [], _ :: _ => return ([], [])
  | (name, v) :: params, arg :: args => do
    if args.any (mentions scopes v) then
      let temp ← Edit.uniqueName (name ++ "_")
      let held ← Make.declare temp arg
      let (first, last) ← passArgs scopes params args
      return (held :: first, (← assignStmt name (.ident (← Make.ident temp))) :: last)
    else if isRead scopes v arg then passArgs scopes params args
    else
      let store ← assignStmt name arg
      let (first, last) ← passArgs scopes params args
      return (store :: first, last)

/-- What takes the place of a tail call. -/
def Target.jump (t : Target) (scopes : ScopeTree) (label : String) (args : List Expr) :
    Edit (List Stmt) := do
  let (first, last) ← passArgs scopes t.params args
  return first ++ last ++ [.continue (← Edit.newId) (some (← Make.ident label))]

/-- Replaces the tail calls of a body. -/
def Target.jumps (t : Target) (scopes : ScopeTree) (label : String) : Transform where
  enterFunctions := false
  stmt place _ s :=
    match t.args? scopes s with
    | none => pure [s]
    | some args => do
      let stmts ← t.jump scopes label args
      match place with
      | .listed => return stmts
      | .alone => return [← Make.block stmts]

/-- Leaves the loop at the end of a body that does not leave it by itself. -/
def endLoop (stmts : List Stmt) : Edit (List Stmt) := do
  if anyAbrupt stmts then return stmts else return stmts ++ [.return (← Edit.newId) none]

/-- The function with its body in a loop. -/
def Target.loop (t : Target) (scopes : ScopeTree) (fn : Func) : Edit Func := do
  let label ← Edit.uniqueName "tail"
  let stmts ← endLoop (← (t.jumps scopes label).onStmts fn.body.stmts)
  let always : Stmt :=
    .while (← Edit.newId) (.bool (← Edit.newId) true) (← Make.block stmts)
  let labeled : Stmt := .labeled (← Edit.newId) (← Make.ident label) always
  return { fn with body := { fn.body with stmts := [labeled] } }

def transform (scopes : ScopeTree) : Transform where
  func fn :=
    match target? scopes fn with
    | none => pure fn
    | some t => do
      Edit.markChanged
      t.loop scopes fn

end TailCalls

/-- Turns functions that end by calling themselves into loops. -/
def loopTailCalls (a : Analysis) (src : Source) : Source × Bool :=
  (TailCalls.transform a.scopes).run src src.program.usedNames

end EsOptimizer
