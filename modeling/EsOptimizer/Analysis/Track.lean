import EsOptimizer.Analysis.Facts
import EsOptimizer.Flow.Reachable
import EsOptimizer.Heap.Query
import EsOptimizer.Options
import Std.Data.TreeMap.AdditionalOperations

/-!
# The analysis as a computation

`Track` is the computation that follows a program: it reads the options, the scopes and the facts of
the run before, and it carries the state at the current point together with what was found out so
far. This module has its elementary steps: reading and writing variables, allocating and changing
objects, following code that may not run, and calling unknown code.
-/

namespace EsOptimizer

/-- The outcome of evaluating an expression once. -/
structure Tracked where
  value : Value
  /-- Nothing but giving the value happened. -/
  pure : Bool

namespace Tracked

def ofPure (value : Value) : Tracked := ⟨value, true⟩

def ofImpure (value : Value) : Tracked := ⟨value, false⟩

/-- The same outcome after parts that were pure, or not. -/
def after (t : Tracked) (pure : Bool) : Tracked := { t with pure := pure && t.pure }

end Tracked

/-- What the analysis of one body keeps for itself. -/
structure Frame where
  /-- The scope of the function, or program, that the body belongs to. -/
  scope : ScopeId
  returns : Option Value := none
  effects : Bool := false
  /-- Objects that the body allocates; changing them is no effect. -/
  allocated : RefSet := {}

/-- A kind of node after which the state is of interest. -/
inductive Moment where
  | stmt | expr
deriving DecidableEq, Repr

/-- The state after a node, with the facts about it so far. -/
structure Event where
  moment : Moment
  node : NodeId
  state : State
  facts : Option NodeFacts

/-- What the analysis reads. -/
structure Context where
  options : Options
  scopes : ScopeTree
  /-- The facts of the run before. -/
  prev : Facts
  /-- Whether to record events. -/
  watch : Bool := false

/-- What the analysis has found out so far, and where it stands. -/
structure Progress where
  state : State := {}
  frame : Frame
  nodeFacts : Std.TreeMap NodeId NodeFacts := {}
  /-- The properties that each `for-in` loop visits, unless they vary. -/
  forInKeys : Std.TreeMap NodeId (Option (List String)) := {}
  /-- The arguments of all calls of a function, joined. -/
  calls : Std.TreeMap NodeId (List Value) := {}
  possible : Std.TreeMap VarKey Value := {}
  summaries : Std.TreeMap NodeId FunctionSummary := {}
  escaped : RefSet := {}
  events : Array Event := #[]

abbrev Track := ReaderT Context (StateM Progress)

namespace Track

/-! ## Bookkeeping -/

def getState : Track State := return (← get).state

def modifyState (f : State → State) : Track Unit := modify fun p => { p with state := f p.state }

/-- A variable of the program. -/
def getVar (v : VarId) : Track Variable := return (← read).scopes.var v

def modifyFrame (f : Frame → Frame) : Track Unit := modify fun p => { p with frame := f p.frame }

/-- Notes that the body does something that can be observed. -/
def noteEffect : Track Unit := modifyFrame fun f => { f with effects := true }

/-- Runs a step that may let references escape. -/
def escaping {α : Type} (step : Escaping α) : Track α :=
  modifyGet fun p =>
    let (a, escaped) := step.run p.escaped
    (a, { p with escaped })

def escape (refs : List Reference) : Track Unit := escaping (Escaping.escape refs)

/-- Joins two values. -/
def join (a b : Value) : Track Value := escaping (Escaping.join a b)

/-- Joins a value to what there is so far. -/
def joinTo (acc : Option Value) (v : Value) : Track (Option Value) := do
  match acc with
  | none => return some v
  | some old => return some (← join old v)

/-- Records the outcome of evaluating a node. -/
def record (node : NodeId) (t : Tracked) : Track Unit := modify fun p =>
  let facts : NodeFacts := match p.nodeFacts[node]? with
    | none => ⟨t.value, t.pure⟩
    | some old => ⟨old.value.or t.value, old.pure && t.pure⟩
  { p with nodeFacts := p.nodeFacts.insert node facts }

/-- Records which properties a `for-in` loop visits this time. -/
def recordForIn (node : NodeId) (keys : Option (List String)) : Track Unit := modify fun p =>
  let keys := match p.forInKeys[node]? with
    | none => keys
    | some old => if old == keys then keys else none
  { p with forInKeys := p.forInKeys.insert node keys }

/-- Records the state after a node, if that is wanted. -/
def notify (moment : Moment) (node : NodeId) : Track Unit := do
  if (← read).watch then
    modify fun p =>
      { p with events := p.events.push ⟨moment, node, p.state, p.nodeFacts[node]?⟩ }

/-- Joins the arguments of a call to those of the calls so far; arguments left out are
`undefined`. -/
def joinArgs : List Value → List Value → List Value
  | [], [] => []
  | [], b :: bs => Value.undefined.or b :: joinArgs [] bs
  | a :: as, [] => a.or .undefined :: joinArgs as []
  | a :: as, b :: bs => a.or b :: joinArgs as bs

/-- Notes the arguments of a call of a function. -/
def observeCall (function : NodeId) (args : List Value) : Track Unit := modify fun p =>
  let observed := match p.calls[function]? with
    | none => args
    | some old => joinArgs old args
  { p with calls := p.calls.insert function observed }

/-! ## Variables -/

/-- Notes a value that is stored in a variable. -/
def addPossible (key : VarKey) (value : Value) : Track Unit := modify fun p =>
  let merged := match p.possible[key]? with
    | none => value
    | some old => old.or value
  { p with possible := p.possible.insert key merged }

/-- Whether the state does not follow a variable: another function writes it, or the body being
followed is not the one that declares it. -/
def isForeign (v : Variable) : Track Bool :=
  return v.hasForeignWrites || v.fnScope != (← get).frame.scope

/-- The value of a variable as the body being followed sees it. -/
def readVar (id : VarId) : Track Value := do
  let cx ← read
  let v ← getVar id
  if v.isGlobal && !cx.options.noGlobalPropertyOverwrites && !v.isPristine then return .unknown
  else if ← isForeign v then return cx.prev.possible.getD v.key .unknown
  else return (← getState).current cx.scopes id

/-- Assigns a variable. If the state does not follow it, that is an effect. -/
def writeVar (id : VarId) (value : Value) : Track Unit := do
  let v ← getVar id
  addPossible v.key value
  if ← isForeign v then noteEffect
  else modifyState (·.setValue id value)

/-! ## Objects -/

def deref (r : Reference) : Track HeapObject := return (← getState).deref r

/-- The heap at the current point. -/
def heap : Track Heap := return ⟨(← getState).deref, (← read).options.noNativeOverwrites⟩

/-- Notes that an object changes. -/
def noteChange (r : Reference) : Track Unit := do
  if !(← get).frame.allocated.contains r then noteEffect

/-- Makes `o` the current version of an object. -/
def updateObject (r : Reference) (o : HeapObject) : Track Unit := do
  let old ← deref r
  if o.dirty && !old.dirty then escape old.references
  noteChange r
  modifyState (·.putObject r o)

/-- Gives up what is known of an object. -/
def makeDirty (r : Reference) : Track Unit := do
  let old ← deref r
  if !old.dirty then
    escape old.references
    noteChange r
    modifyState (·.putObject r .unknown)

/-- Stores a newly allocated object. A reference that has an object already stands for both from
now on. -/
def allocate (r : Reference) (o : HeapObject) : Track Unit := do
  modifyFrame fun f => { f with allocated := f.allocated.insert r }
  let o ← match (← getState).lookupObject r with
    | .found old => escaping (Escaping.joinObjects old o)
    | .changing =>
      escape o.references
      pure .unknown
    | .missing => pure o
  modifyState (·.putObject r o)

/-- Allocates a function and its `prototype`. -/
def allocateFunction (id : NodeId) : Track Reference := do
  let r := Reference.function id
  let proto := Reference.node id .prototype
  allocate proto
    ((HeapObject.empty (some (.host .objectPrototype)) .knowsAll).insert "constructor"
      (.hidden (.ofReference r)))
  allocate r
    ((HeapObject.empty (some (.host .functionPrototype)) .noUnknownOverrideOrEnumerable).insert
      "prototype" { Descriptor.hidden (.ofReference proto) with configurable := false })
  return r

/-- Allocates an array; elements may be missing. -/
def allocateArray (id : NodeId) (elems : List (Option Value)) : Track Reference := do
  let r := Reference.node id .array
  let start := HeapObject.empty (some (.host .arrayPrototype)) .knowsAll
  let filled := elems.zipIdx.foldl (fun o e =>
    match e.1 with
    | some v => o.insert (toString e.2) (.data v)
    | none => o) start
  allocate r (filled.insert "length" (.arrayLength elems.length))
  return r

/-! ## Branches and loops -/

/-- Runs a step in a state of its own. Gives its result and what it changed. -/
def inState {α : Type} (start : State → State) (step : Track α) : Track (α × Layer) := do
  let outer ← getState
  modifyState start
  let a ← step
  let inner ← getState
  modifyState fun _ => outer
  return (a, inner.top)

/-- Runs a step in a child of the current state. -/
def inChild {α : Type} (step : Track α) : Track (α × Layer) := inState State.child step

/-- Merges a step that certainly ran. -/
def mergeBack (delta : Layer) (discard : Option ScopeId) : Track Unit := do
  let cx ← read
  modifyState fun s => s.mergeBack cx.scopes delta discard

/-- Replaces the state by the outcome of a merge. -/
def merging (merge : ScopeTree → State → Escaping State) : Track Unit := do
  let merged ← escaping (merge (← read).scopes (← getState))
  modifyState fun _ => merged

/-- Merges two steps of which exactly one ran. -/
def mergeOr (a b : Layer) : Track Unit := merging fun scopes s => s.mergeOr scopes a b

/-- Merges a step that may not have run. -/
def mergeMaybe (delta : Layer) : Track Unit := merging fun scopes s => s.mergeMaybe scopes delta

/-- Merges a step that may have stopped anywhere. -/
def mergeUnsure (written : Written) : Track Unit :=
  merging fun scopes s => s.mergeUnsure scopes written

/-- Follows code that may stop anywhere. -/
def unsure (body : Track Unit) : Track Unit := do
  let (_, delta) ← inChild body
  mergeUnsure delta.written

/-- With more rounds than this a loop is given up. -/
def maxRounds : Nat := 32

/-- Gives up on a loop: nothing is known of what it wrote. -/
def giveUp (acc : Written) : Track Written := do
  for (_, value) in acc.vars.toList do
    escape value.references
  for (r, o) in acc.heap.toList do
    escape (o.references ++ [r])
  return { acc with
    vars := acc.vars.map fun _ _ => .unknown
    heap := acc.heap.map fun _ _ => .unknown }

/-- Follows rounds of a loop until they write nothing new, at most `n`. -/
def rounds (vars : VarSet) (body : Track Unit) : Nat → Written → Track Written
  | 0, acc => giveUp acc
  | n + 1, acc => do
    let boundary : Boundary :=
      { vars, refs := RefSet.ofList acc.heap.keys, reach := acc.reach }
    let (_, delta) ← inState (·.round boundary) body
    let (acc, changed) := acc.absorb delta.written
    if changed then rounds vars body n acc else return acc

/-- Follows a loop that writes the variables `vars`. Inside it these are unknown, and so is every
object that it changes. -/
def loop (vars : VarSet) (body : Track Unit) : Track Unit := do
  mergeUnsure (← rounds vars body maxRounds {})

/-! ## Unknown code -/

/-- Variables through which code elsewhere may reach objects: those that inner functions use, and
global ones, of which only the program's own functions count if nothing else reads them. -/
def sharedVars : Track (List VarId) := do
  let cx ← read
  let globals :=
    if cx.options.noGlobalPropertyReads then cx.scopes.sharedGlobals.toList
    else cx.scopes.globalVars
  return (cx.scopes.captured.insertMany globals).toList

/-- The references that unknown code may get hold of through a variable. -/
def variableRoots (id : VarId) : Track (List Reference) := do
  let cx ← read
  let s ← getState
  let key := (← getVar id).key
  let possible := [(← get).possible[key]?, cx.prev.possible[key]?].reduceOption
  return (s.current cx.scopes id).references ++ (s.reachOf id).toList ++
    possible.flatMap Value.references

/-- Runs unknown code. It may change every object that it can reach from `roots`, from escaped
objects and from shared variables. -/
def unknownCall (roots : List Reference) : Track Unit := do
  let cx ← read
  let shared ← (← sharedVars).mapM variableRoots
  let s ← getState
  let start := roots ++ (← get).escaped.toList ++ cx.prev.escaped.toList ++ shared.flatten
  for r in (s.reachable (fun r => (s.deref r).references) start).toList do
    escape [r]
    if !(cx.options.noNativeOverwrites && r.isHost) then makeDirty r
  noteEffect

/-- Converts values to primitive ones, which may run code of objects. Tells whether they all were
primitive. -/
def toPrimitive (values : List Value) : Track Bool := do
  if values.all Value.isPrimitive then return true
  unknownCall (values.flatMap Value.references)
  return false

/-- The property names that a value may convert to. -/
def propertyNames (key : Value) : Track (Option (List String)) := do
  if ← toPrimitive [key] then
    return key.singles?.map fun singles => (singles.filterMap Single.primitive?).map Primitive.toText
  else return none

end Track

end EsOptimizer
