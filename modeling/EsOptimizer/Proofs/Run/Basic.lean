import EsOptimizer.Analysis.Call

/-!
# Running primitive code

A concrete semantics for function bodies that compute with primitive values and variables of their
own: no calls, no objects, no functions inside. It is what the facts of an analysis are measured
against, and what a change to such a body has to preserve.

The variables in force are an association list of names, with the parameter of a `catch` clause in
front of the variables of the function. Expressions always give a value. A statement ends with an
`Outcome`; every loop may go round at most `n` times, and a run in which one would go on is cut off
there. So a run that ends is one that is not cut off for some `n`, and what happens in any run, be it
endless, happens in one that is cut off.

A run keeps a list of all evaluations of expressions in it. What is assigned to is not evaluated.
-/

namespace EsOptimizer

/-! ## Variables -/

/-- The variables in force and their values, innermost first. -/
abbrev Env := List (String × Primitive)

/-- The global constants that an undeclared name may mean. -/
def globalConstant? (name : String) : Option Primitive :=
  if name = "NaN" then some (.number .nan)
  else if name = "Infinity" then some (.number .infinity)
  else none

namespace Env

/-- The value of a name. -/
def read (env : Env) (name : String) : Primitive :=
  ((env.lookup name).or (globalConstant? name)).getD .undefined

/-- Assigns the innermost variable of a name. -/
def assign (name : String) (value : Primitive) : Env → Env
  | [] => []
  | (x, old) :: rest =>
    if name = x then (x, value) :: rest else (x, old) :: assign name value rest

def has (env : Env) (name : String) : Bool := (env.lookup name).isSome

/-- Gives a parameter its value. Of two parameters of one name the last one counts. -/
def bindParam (env : Env) (name : String) (value : Primitive) : Env :=
  if env.has name then env.assign name value else env ++ [(name, value)]

/-- Declares a variable, unless there is one of that name. -/
def declare (env : Env) (name : String) : Env :=
  if env.has name then env else env ++ [(name, .undefined)]

end Env

/-! ## Runs -/

/-- One evaluation of an expression: its node and value, and the variables before and after. -/
structure Evaluation where
  node : NodeId
  before : Env
  value : Primitive
  after : Env

/-- Where a run stands. -/
structure World where
  env : Env
  /-- The evaluations so far, the last one first. -/
  trace : List Evaluation := []

abbrev Run := StateM World

namespace Run

def readName (name : String) : Run Primitive := return (← get).env.read name

def assignName (name : String) (value : Primitive) : Run Unit :=
  modify fun w => { w with env := w.env.assign name value }

/-- Notes an evaluation. -/
def evaluated (node : NodeId) (step : Run Primitive) : Run Primitive := do
  let before := (← get).env
  let value ← step
  modify fun w => { w with trace := ⟨node, before, value, w.env⟩ :: w.trace }
  return value

/-- `&&` and `||`: the right side runs if the left side does not decide. -/
def logical (isOr : Bool) (left right : Run Primitive) : Run Primitive := do
  let value ← left
  if value.truthy = isOr then return value else right

/-- The value to assign: the right side, or its combination with the old value, which is read
first. -/
def assigned (op : AssignOp) (name : String) (right : Run Primitive) : Run Primitive := do
  match op.binary? with
  | none => right
  | some op =>
    let old ← readName name
    let value ← right
    return (Primitive.binary op old value).getD .undefined

/-- An update of a variable, which gives the new number if it stands before, else the old one. -/
def updateName (op : UpdateOp) (before : Bool) (name : String) : Run Primitive := do
  let old := (← readName name).toNumber
  let new := old.add (Track.updateStep op)
  assignName name (.number new)
  return .number (if before then new else old)

/-- Runs code in which a variable of its own is in force. -/
def withVariable {α : Type} (name : String) (value : Primitive) (step : Run α) : Run α := do
  modify fun w => { w with env := (name, value) :: w.env }
  let a ← step
  modify fun w => { w with env := w.env.tail }
  return a

end Run

open Run

mutual

/-- The value of an expression. -/
def Expr.eval (e : Expr) : Run Primitive :=
  evaluated e.id (
    match e with
    | .ident i => readName i.name
    | .string _ s => pure (.string s)
    | .bool _ b => pure (.bool b)
    | .null _ => pure .null
    | .number _ n => pure (.number n)
    | .unary _ op arg => do return (Primitive.unary op (← arg.eval)).getD .undefined
    | .update _ op before (.ident i) => updateName op before i.name
    | .binary _ .or left right => logical true left.eval right.eval
    | .binary _ .and left right => logical false left.eval right.eval
    | .binary _ op left right => do
      let left ← left.eval
      let right ← right.eval
      return (Primitive.binary op left right).getD .undefined
    | .assign _ op (.ident i) right => do
      let value ← assigned op i.name right.eval
      assignName i.name value
      return value
    | .cond _ test yes no => do if (← test.eval).truthy then yes.eval else no.eval
    | .seq _ exprs => do return (← evalAll exprs).getLastD .undefined
    | _ => pure .undefined)

def evalAll : List Expr → Run (List Primitive)
  | [] => return []
  | e :: rest => return (← e.eval) :: (← evalAll rest)

end

/-- The value of an expression that may be missing. -/
def eval? : Option Expr → Run (Option Primitive)
  | none => return none
  | some e => return some (← e.eval)

/-! ## Statements -/

/-- How a statement ends. -/
inductive Outcome where
  | normal
  | break (label : Option String)
  | continue (label : Option String)
  | return (value : Primitive)
  | throw (value : Primitive)
  /-- A loop had more rounds to go than a run may have. -/
  | cutOff
deriving DecidableEq, Repr

/-- How a loop with these labels ends after a round with this outcome; nothing means that it goes
on. -/
def Outcome.leaves (labels : List String) : Outcome → Option Outcome
  | .normal | .continue none => none
  | .continue (some label) => if label ∈ labels then none else some (.continue (some label))
  | .break none => some .normal
  | outcome => some outcome

/-- How a statement with a label ends, given how what is labeled ended. -/
def Outcome.unlabeled (label : String) : Outcome → Outcome
  | .break (some l) => if l = label then .normal else .break (some l)
  | outcome => outcome

/-- How a `try` statement ends, given how its finalizer and the part before it ended. -/
def Outcome.finally (before finalizer : Outcome) : Outcome :=
  if finalizer = .normal then before else finalizer

namespace Run

/-- The rounds of a loop, at most `n`. -/
def rounds (labels : List String) (test : Run Bool) (body : Run Outcome) (update : Run Unit) :
    Nat → Run Outcome
  | 0 => do if ← test then return .cutOff else return .normal
  | n + 1 => do
    if ← test then
      match (← body).leaves labels with
      | some outcome => return outcome
      | none => do
        update
        rounds labels test body update n
    else return .normal

/-- A loop that tests after each round. -/
def roundsAfter (labels : List String) (test : Run Bool) (body : Run Outcome) (n : Nat) :
    Run Outcome := do
  match (← body).leaves labels with
  | some outcome => return outcome
  | none => rounds labels test body (pure ()) n

/-- Runs the statements of a `try`. A part after which the run is cut off is the last one. -/
def attempt (block : Run Outcome) (handler : Primitive → Run Outcome) (finalizer : Run Outcome) :
    Run Outcome := do
  let outcome ← match ← block with
    | .throw value => handler value
    | outcome => pure outcome
  if outcome = .cutOff then return .cutOff else return outcome.finally (← finalizer)

end Run

/-- Gives declared variables their values. -/
def execDeclarators : List Declarator → Run Unit
  | [] => return
  | ⟨_, name, init⟩ :: rest => do
    match ← eval? init with
    | some value => assignName name.name value
    | none => pure ()
    execDeclarators rest

def execHead? : Option ForHead → Run Unit
  | none => return
  | some (.decl d) => execDeclarators d.decls
  | some (.expr e) => discard e.eval

/-- The truth of a test; a missing one is true. -/
def testTruth (test : Option Expr) : Run Bool := return ((← eval? test).map Primitive.truthy).getD true

mutual

/-- Runs a statement that has these labels. -/
def Stmt.exec (n : Nat) : Stmt → (labels : List String) → Run Outcome
  | .block b, _ => b.exec n
  | .expr _ e, _ => do
    discard e.eval
    return .normal
  | .var d, _ => do
    execDeclarators d.decls
    return .normal
  | .if _ test yes no, _ => do
    if (← test.eval).truthy then yes.exec n [] else exec? n no
  | .while _ test body, labels =>
    rounds labels (testTruth (some test)) (body.exec n []) (pure ()) n
  | .doWhile _ body test, labels =>
    roundsAfter labels (testTruth (some test)) (body.exec n []) n
  | .for _ init test update body, labels => do
    execHead? init
    rounds labels (testTruth test) (body.exec n []) (discard (eval? update)) n
  | .labeled _ label body, labels => do
    return (← body.exec n (label.name :: labels)).unlabeled label.name
  | .return _ arg, _ => do return .return ((← eval? arg).getD .undefined)
  | .throw _ arg, _ => do return .throw (← arg.eval)
  | .break _ label, _ => return .break (label.map (·.name))
  | .continue _ label, _ => return .continue (label.map (·.name))
  | .try _ block handler finalizer, _ =>
    attempt (block.exec n) (execHandler n handler) (execBlock? n finalizer)
  | .empty _, _ | .function _ _ _, _ | .forIn _ _ _ _, _ | .with _ _ _, _ => return .normal

def exec? (n : Nat) : Option Stmt → Run Outcome
  | none => return .normal
  | some s => s.exec n []

def Block.exec (n : Nat) : Block → Run Outcome
  | ⟨_, stmts⟩ => execAll n stmts

def execBlock? (n : Nat) : Option Block → Run Outcome
  | none => return .normal
  | some b => b.exec n

/-- Handles a value that was thrown. Without a handler it is thrown on. -/
def execHandler (n : Nat) : Option CatchClause → Primitive → Run Outcome
  | none, value => return .throw value
  | some ⟨_, some param, body⟩, value => withVariable param.name value (body.exec n)
  | some ⟨_, none, body⟩, _ => body.exec n

/-- Runs statements up to the first that does not end normally. -/
def execAll (n : Nat) : List Stmt → Run Outcome
  | [] => return .normal
  | s :: rest => do
    match ← s.exec n [] with
    | .normal => execAll n rest
    | outcome => return outcome

end

/-! ## Functions -/

/-- How a call ends. -/
inductive Result where
  | returned (value : Primitive)
  | thrown (value : Primitive)
deriving Repr

/-- Whether two calls end in the same way, with the same value. -/
def Result.same : Result → Result → Bool
  | .returned a, .returned b => a == b
  | .thrown a, .thrown b => a == b
  | _, _ => false

/-- The result of a body. Coming to its end returns `undefined`. -/
def Outcome.result? : Outcome → Option Result
  | .normal => some (.returned .undefined)
  | .return value => some (.returned value)
  | .throw value => some (.thrown value)
  | .break _ | .continue _ | .cutOff => none

namespace Func

/-- The names that the body declares with `var`. -/
def varNames (f : Func) : List Ident := (stmtNodes false f.body.stmts).flatMap Node.varNames

/-- The values of the parameters: arguments left out are `undefined`, and others are dropped. -/
def arguments (f : Func) (args : List Primitive) : List Primitive :=
  (List.range f.params.length).map fun i => args.getD i .undefined

/-- The variables when the body starts to run. -/
def entry (f : Func) (args : List Primitive) : Env :=
  let params := (f.params.zip (f.arguments args)).foldl
    (fun env e => Env.bindParam env e.1.name e.2) []
  f.varNames.foldl (fun env x => Env.declare env x.name) params

/-- Runs the body, with at most `n` rounds for every loop. -/
def exec (f : Func) (n : Nat) (args : List Primitive) : Outcome × World :=
  (execAll n f.body.stmts).run { env := f.entry args }

/-- A call ends with a result. -/
def Yields (f : Func) (args : List Primitive) (r : Result) : Prop :=
  ∃ n, (f.exec n args).1.result? = some r

end Func

end EsOptimizer
