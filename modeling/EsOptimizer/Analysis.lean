import EsOptimizer.Analysis.Interpret
import EsOptimizer.Scope.Build

/-!
# One run of the analysis

The body of the program and then the body of every function are followed once, each by itself. What
crosses the boundary of a function is read from the facts of the run before and collected for the
next one. Runs are repeated until the facts stay the same; only then can the results be relied on.
-/

namespace EsOptimizer

/-- The result of one run. -/
structure Analysis where
  scopes : ScopeTree
  nodeFacts : Std.TreeMap NodeId NodeFacts
  /-- The properties that each `for-in` loop visits, for loops that visit the same ones every time
  and leave the object alone. -/
  forInKeys : Std.TreeMap NodeId (List String)
  facts : Facts
  /-- The states that were met, if they were recorded. -/
  events : Array Event := #[]

namespace Track

/-- Starts on another body. -/
def enterBody (scope : ScopeId) : Track Unit :=
  modify fun p => { p with state := {}, frame := { scope } }

/-- Follows the body of the program. -/
def onProgram (p : Program) : Track Unit := do
  enterBody ScopeTree.root
  enterScope ScopeTree.root
  onStmts p.body

/-- The values of a function's parameters when it is called. -/
def paramValues (function : NodeId) (count : Nat) : Track (List Value) := do
  let known := ((← read).prev.params[function]?).getD []
  return (List.range count).map fun i => known.getD i .unknown

/-- What the body that was followed returns. Coming to the end of it returns `undefined`. -/
def returned : Track Value := do
  let p ← get
  match p.frame.returns with
  | none => return .undefined
  | some returns => return if p.state.isDead then returns else returns.or .undefined

/-- Follows the body of a function and sums it up. -/
def onFunction (fn : Func) : Track Unit := do
  match (← read).scopes.function? fn.id with
  | none => return
  | some info =>
    enterBody info.scope
    for (id, value) in info.params.zip (← paramValues fn.id info.params.length) do
      writeVar id value
    match info.nameVar with
    | some name => if !info.isDecl then writeVar name (.ofReference (.function fn.id))
    | none => pure ()
    enterScope info.scope
    onStmts fn.body.stmts
    let returns ← returned
    modify fun p =>
      { p with summaries := p.summaries.insert fn.id ⟨returns, !p.frame.effects⟩ }

/-- A run over a whole program. -/
def onAll (p : Program) : Track Unit := do
  onProgram p
  p.functions.forM onFunction

end Track

/-- Whether all calls of a declared function are known: its name is only ever called, and nothing
outside the program can get at it. -/
def hasKnownCalls (options : Options) (scopes : ScopeTree) (info : FunctionInfo) : Bool :=
  match info.nameVar with
  | none => false
  | some id =>
    let name := scopes.var id
    info.isDecl && !info.usesArguments && name.reads.all (·.kind == .callee) &&
      name.writes.length == 1 && (!name.isGlobal || options.noGlobalPropertyReads)

/-- The values of parameters that the calls of a run allow to publish. -/
def publishedParams (options : Options) (scopes : ScopeTree)
    (calls : Std.TreeMap NodeId (List Value)) : Std.TreeMap NodeId (List Value) :=
  calls.filterMap fun function args =>
    (scopes.function? function).bind fun info =>
      if hasKnownCalls options scopes info then
        some ((List.range info.params.length).map fun i => args.getD i .undefined)
      else none

/-- Analyzes a program, given the facts of the run before. Events are recorded if `watch`. -/
def analyze (p : Program) (options : Options) (prev : Facts) (watch : Bool) : Analysis :=
  let scopes := ScopeTree.ofProgram p
  let (_, progress) :=
    ((Track.onAll p).run { options, scopes, prev, watch }).run { frame := { scope := ScopeTree.root } }
  { scopes
    nodeFacts := progress.nodeFacts
    forInKeys := progress.forInKeys.filterMap fun _ keys => keys
    facts := {
      params := publishedParams options scopes progress.calls
      possible := progress.possible
      summaries := progress.summaries
      escaped := progress.escaped }
    events := progress.events }

namespace Analysis

def factsOf (a : Analysis) (node : NodeId) : Option NodeFacts := a.nodeFacts[node]?

/-- Whether evaluating a node is known to do nothing but give a value. -/
def isPure (a : Analysis) (node : NodeId) : Bool := ((a.factsOf node).map (·.pure)).getD false

/-- The value of an expression whose evaluation does nothing else. -/
def pureValue? (a : Analysis) (node : NodeId) : Option Value :=
  ((a.factsOf node).filter (·.pure)).map (·.value)

/-- The primitive value that a pure expression always has. -/
def constant? (a : Analysis) (node : NodeId) : Option Primitive :=
  (a.pureValue? node).bind Value.primitive?

/-- The boolean that an expression always converts to, and whether evaluating it is pure. -/
def truthiness? (a : Analysis) (node : NodeId) : Option (Bool × Bool) :=
  (a.factsOf node).bind fun f => f.value.truthiness.map (·, f.pure)

end Analysis

/-- At most `n` runs, each starting from the facts of the one before, until the facts stay the same;
and whether they did. -/
def stabilize (p : Program) (options : Options) : Nat → Facts → List Analysis × Bool
  | 0, _ => ([], false)
  | n + 1, prev =>
    let a := analyze p options prev false
    if a.facts == prev then ([a], true)
    else
      let (rest, stable) := stabilize p options n a.facts
      (a :: rest, stable)

end EsOptimizer
