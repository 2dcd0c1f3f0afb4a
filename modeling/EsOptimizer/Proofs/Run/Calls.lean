import EsOptimizer.Proofs.Run.Plain

/-!
# Running programs whose functions call each other

A concrete semantics for first-order programs: functions are declared at the top level and called by
name, and all code computes with primitive values and with variables of the body that it stands in.

How names are called is a parameter of expressions and statements. Calls of a program may nest at
most `n` deep, and a run that would go deeper is cut off there; so a run that ends is one that is not
cut off for some `n`, and what happens in any run, be it endless, happens in one that is cut off.

A run keeps a list of all evaluations of expressions, of all calls with their arguments, and of what
functions returned. What is assigned to is not evaluated, and neither is the name that a call calls.
-/

namespace EsOptimizer

/-! ## Machines -/

/-- Where a run of a program stands. The variables are those of the body that is running. -/
structure Machine extends World where
  /-- The functions that were called, with the arguments, the last call first. -/
  calls : List (Func × List Primitive) := []
  /-- The functions that returned, with the values, the last one first. -/
  returns : List (Func × Primitive) := []

/-- A computation that may be cut off. -/
abbrev Process := OptionT (StateM Machine)

/-- What a call of a name with some arguments does. -/
abbrev Calling := String → List Primitive → Process Primitive

namespace Process

/-- A step that calls nothing. -/
def ofRun {α : Type} (step : Run α) : Process α := fun m =>
  let (a, w) := step m.toWorld
  (some a, { m with toWorld := w })

theorem bind_apply {α β : Type} (c : Process α) (g : α → Process β) (m : Machine) : (c >>= g) m =
    match (c m).1 with
    | some x => g x (c m).2
    | none => (none, (c m).2) := by
  change (match (c m).1 with
    | some x => g x
    | none => pure none : StateM Machine (Option β)) (c m).2 = _
  cases (c m).1 <;> rfl

/-- Notes an evaluation. -/
def evaluated (node : NodeId) (step : Process Primitive) : Process Primitive := do
  let before := (← get).env
  let value ← step
  modify fun m => { m with trace := ⟨node, before, value, m.env⟩ :: m.trace }
  return value

theorem evaluated_apply (node : NodeId) (c : Process Primitive) (m : Machine) :
    evaluated node c m = match (c m).1 with
      | some x =>
        (some x, { (c m).2 with trace := ⟨node, m.env, x, (c m).2.env⟩ :: (c m).2.trace })
      | none => (none, (c m).2) := by
  change (c >>= fun x => do
    modify fun m' => { m' with trace := ⟨node, m.env, x, m'.env⟩ :: m'.trace }
    return x) m = _
  rw [bind_apply]
  cases (c m).1 <;> rfl

/-- `&&` and `||`: the right side runs if the left side does not decide. -/
def logical (isOr : Bool) (left right : Process Primitive) : Process Primitive := do
  let value ← left
  if value.truthy = isOr then return value else right

/-- The value to assign: the right side, or its combination with the old value, which is read
first. -/
def assigned (op : AssignOp) (name : String) (right : Process Primitive) : Process Primitive := do
  match op.binary? with
  | none => right
  | some op =>
    let old ← ofRun (Run.readName name)
    let value ← right
    return (Primitive.binary op old value).getD .undefined

end Process

open Process

/-! ## Expressions and statements -/

mutual

/-- The value of an expression. -/
def Expr.run (call : Calling) (e : Expr) : Process Primitive :=
  evaluated e.id (
    match e with
    | .ident i => ofRun (Run.readName i.name)
    | .string _ s => pure (.string s)
    | .bool _ b => pure (.bool b)
    | .null _ => pure .null
    | .number _ n => pure (.number n)
    | .unary _ op arg => do return (Primitive.unary op (← arg.run call)).getD .undefined
    | .update _ op before (.ident i) => ofRun (Run.updateName op before i.name)
    | .binary _ .or left right => logical true (left.run call) (right.run call)
    | .binary _ .and left right => logical false (left.run call) (right.run call)
    | .binary _ op left right => do
      let left ← left.run call
      let right ← right.run call
      return (Primitive.binary op left right).getD .undefined
    | .assign _ op (.ident i) right => do
      let value ← assigned op i.name (right.run call)
      ofRun (Run.assignName i.name value)
      return value
    | .cond _ test yes no => do
      if (← test.run call).truthy then yes.run call else no.run call
    | .call _ (.ident i) args => do call i.name (← runExprs call args)
    | .seq _ exprs => do return (← runExprs call exprs).getLastD .undefined
    | _ => failure)

def runExprs (call : Calling) : List Expr → Process (List Primitive)
  | [] => return []
  | e :: rest => return (← e.run call) :: (← runExprs call rest)

end

/-- The value of an expression that may be missing. -/
def runExpr? (call : Calling) : Option Expr → Process (Option Primitive)
  | none => return none
  | some e => return some (← e.run call)

/-- Gives declared variables their values. -/
def runDeclarators (call : Calling) : List Declarator → Process Unit
  | [] => return
  | ⟨_, name, init⟩ :: rest => do
    match ← runExpr? call init with
    | some value => ofRun (Run.assignName name.name value)
    | none => pure ()
    runDeclarators call rest

theorem runDeclarators_some (call : Calling) (id : NodeId) (name : Ident) (e : Expr)
    (rest : List Declarator) : runDeclarators call (⟨id, name, some e⟩ :: rest) = (do
      let value ← e.run call
      ofRun (Run.assignName name.name value)
      runDeclarators call rest) := by
  rw [runDeclarators, runExpr?, bind_assoc]
  simp only [pure_bind]

mutual

/-- Runs a statement. Tells what it returns, if it does. -/
def Stmt.run (call : Calling) : Stmt → Process (Option Primitive)
  | .block b => b.run call
  | .empty _ | .function _ _ _ => return none
  | .expr _ e => do
    let _ ← e.run call
    return none
  | .var d => do
    runDeclarators call d.decls
    return none
  | .if _ test yes no => do
    if (← test.run call).truthy then yes.run call else runStmt? call no
  | .return _ arg => do return some ((← runExpr? call arg).getD .undefined)
  | _ => failure

def runStmt? (call : Calling) : Option Stmt → Process (Option Primitive)
  | none => return none
  | some s => s.run call

def Block.run (call : Calling) : Block → Process (Option Primitive)
  | ⟨_, stmts⟩ => runStmts call stmts

/-- Runs statements up to the first that returns. -/
def runStmts (call : Calling) : List Stmt → Process (Option Primitive)
  | [] => return none
  | s :: rest => do
    match ← s.run call with
    | none => runStmts call rest
    | some value => return some value

end

/-! ## Calls -/

/-- Calls a function. Coming to the end of the body gives `undefined`. The variables of the caller
are back in force afterwards. -/
def Func.run (call : Calling) (f : Func) (args : List Primitive) : Process Primitive := do
  let caller := (← get).env
  modify fun m => { m with env := f.entry args, calls := (f, args) :: m.calls }
  let value := (← runStmts call f.body.stmts).getD .undefined
  modify fun m => { m with env := caller, returns := (f, value) :: m.returns }
  return value

/-- A call notes itself, runs the body and notes what it returns. -/
theorem Func.run_apply (call : Calling) (f : Func) (args : List Primitive) (m : Machine) :
    f.run call args m =
      match runStmts call f.body.stmts
        { m with env := f.entry args, calls := (f, args) :: m.calls } with
      | (some o, m') => (some (o.getD .undefined),
          { m' with env := m.env, returns := (f, o.getD .undefined) :: m'.returns })
      | (none, m') => (none, m') := by
  change (runStmts call f.body.stmts >>= fun o => do
    modify fun m' => { m' with env := m.env, returns := (f, o.getD .undefined) :: m'.returns }
    return o.getD .undefined : Process Primitive) _ = _
  rw [Process.bind_apply]
  rcases runStmts call f.body.stmts _ with ⟨_ | o, m'⟩ <;> rfl

namespace Program

/-- The functions that are declared at the top level, with their names. -/
def declarations (p : Program) : List (Ident × Func) :=
  p.body.filterMap fun
    | .function _ i f => some (i, f)
    | _ => none

/-- The function that has a name. -/
def function? (p : Program) (name : String) : Option Func :=
  (p.declarations.find? (·.1.name == name)).map (·.2)

/-- The names that the code outside functions declares with `var`. -/
def varNames (p : Program) : List Ident := (stmtNodes false p.body).flatMap Node.varNames

/-- Calls a function by its name. Calls nest at most `n` deep. -/
def call (p : Program) : Nat → Calling
  | 0, _, _ => failure
  | n + 1, name, args =>
    match p.function? name with
    | some f => f.run (p.call n) args
    | none => failure

/-- The variables when the program starts. -/
def entry (p : Program) : Env := p.varNames.foldl (fun env x => env.declare x.name) []

/-- Runs the program, and tells whether it was cut off. -/
def run (p : Program) (n : Nat) : Bool × Machine :=
  let (outcome, m) := (runStmts (p.call n) p.body) { env := p.entry }
  (outcome.isNone, m)

end Program

/-! ## First-order programs -/

mutual

/-- Whether an expression computes with the variables `own` and calls of the functions
`callable`. -/
def Expr.isFirstOrder (callable own : List String) : Expr → Bool
  | .ident i => own.contains i.name
  | .string _ _ | .bool _ _ | .null _ | .number _ _ => true
  | .unary _ op arg => op != .delete && arg.isFirstOrder callable own
  | .update _ _ _ (.ident i) => own.contains i.name
  | .binary _ op left right =>
    op != .in && op != .instanceOf && left.isFirstOrder callable own &&
      right.isFirstOrder callable own
  | .assign _ _ (.ident i) right => own.contains i.name && right.isFirstOrder callable own
  | .cond _ test yes no =>
    test.isFirstOrder callable own && yes.isFirstOrder callable own && no.isFirstOrder callable own
  | .call _ (.ident i) args => callable.contains i.name && areFirstOrder callable own args
  | .seq _ exprs => areFirstOrder callable own exprs
  | _ => false

def areFirstOrder (callable own : List String) : List Expr → Bool
  | [] => true
  | e :: rest => e.isFirstOrder callable own && areFirstOrder callable own rest

end

/-- Whether an expression, if there is one, is first-order. -/
def isFirstOrder? (callable own : List String) (e : Option Expr) : Bool :=
  e.all (·.isFirstOrder callable own)

def VarDecl.isFirstOrder (callable own : List String) (d : VarDecl) : Bool :=
  d.kind == .var &&
    d.decls.all fun x => own.contains x.name.name && isFirstOrder? callable own x.init

mutual

/-- Whether a statement computes with the variables `own` and calls of the functions `callable`.
No function is declared in it. -/
def Stmt.isFirstOrder (callable own : List String) : Stmt → Bool
  | .block b => b.isFirstOrder callable own
  | .empty _ => true
  | .expr _ e => e.isFirstOrder callable own
  | .var d => d.isFirstOrder callable own
  | .if _ test yes no =>
    test.isFirstOrder callable own && yes.isFirstOrder callable own &&
      isFirstOrderStmt? callable own no
  | .return _ arg => EsOptimizer.isFirstOrder? callable own arg
  | _ => false

def isFirstOrderStmt? (callable own : List String) : Option Stmt → Bool
  | none => true
  | some s => s.isFirstOrder callable own

def Block.isFirstOrder (callable own : List String) : Block → Bool
  | ⟨_, stmts⟩ => areFirstOrderStmts callable own stmts

def areFirstOrderStmts (callable own : List String) : List Stmt → Bool
  | [] => true
  | s :: rest => s.isFirstOrder callable own && areFirstOrderStmts callable own rest

end

/-- Whether a function of a program with these functions is first-order. None of its variables has
the name of a function, and its `arguments`, if there is such a variable, is a parameter: the
`arguments` of a call are an object. -/
def Func.isFirstOrder (functions : List String) (f : Func) : Bool :=
  f.ownNames.all (!functions.contains ·) &&
    (!(f.varNames.map (·.name)).contains "arguments" ||
      (f.params.map (·.name)).contains "arguments") &&
    areFirstOrderStmts (functions.filter (· != "arguments")) f.ownNames f.body.stmts

namespace Program

/-- The names of the functions that are declared at the top level. -/
def functionNames (p : Program) : List String := p.declarations.map (·.1.name)

/-- Whether a program is first-order: its functions have different names, which are no variables,
and it consists of their declarations and of statements that declare no function. -/
def isFirstOrder (p : Program) : Bool :=
  decide p.functionNames.Nodup &&
    (p.varNames.all fun x => !p.functionNames.contains x.name) &&
    p.body.all fun
      | .function _ _ f => f.isFirstOrder p.functionNames
      | s => s.isFirstOrder p.functionNames (p.varNames.map (·.name))

end Program

end EsOptimizer
