import EsOptimizer.Host.Object
import EsOptimizer.Scope.Basic

/-!
# What is known at a point of the program

A `State` holds the values of variables, the current version of heap objects, and which references
may be reached from each variable. Code that may or may not run is followed in a child: a new
`Layer` on top of the layers of its parent. The layer is what the child changed, and the parent
merges it in one of four ways, depending on how the code relates to the code around it.

A layer also keeps the union of all that was ever written in it. Code that may stop part-way, such
as a loop, is merged through that union, which covers every state in between.

Merging may lose track of references. Those are collected as *escaped*: from then on unknown code
may hold them.
-/

namespace EsOptimizer

abbrev RefSet := Std.TreeSet Reference

namespace RefSet

def ofList (rs : List Reference) : RefSet := Std.TreeSet.ofList rs

/-- Adds the references of a list. -/
def extend (s : RefSet) (rs : List Reference) : RefSet := rs.foldl .insert s

def union (a b : RefSet) : RefSet := extend a b.toList

/-- Whether two sets have the same members. -/
def same (a b : RefSet) : Bool := a.toList == b.toList

end RefSet

abbrev Values := Std.TreeMap VarId Value

abbrev Objects := Std.TreeMap Reference HeapObject

abbrev Reach := Std.TreeMap VarId RefSet

/-! ## Unions -/

/-- The union of all that was written. -/
structure Written where
  vars : Values := {}
  heap : Objects := {}
  reach : Reach := {}

namespace Written

/-- Adds a value of a variable. Tells whether that made a difference. -/
def addValue (w : Written) (v : VarId) (value : Value) : Written × Bool :=
  match w.vars[v]? with
  | none => ({ w with vars := w.vars.insert v value }, true)
  | some old =>
    let merged := old.or value
    ({ w with vars := w.vars.insert v merged }, merged != old)

/-- Adds a version of an object. Tells whether that made a difference. -/
def addObject (w : Written) (r : Reference) (o : HeapObject) : Written × Bool :=
  match w.heap[r]? with
  | none => ({ w with heap := w.heap.insert r o }, true)
  | some old =>
    let merged := old.or o
    ({ w with heap := w.heap.insert r merged }, merged != old)

/-- Adds references that a variable may reach. Tells whether that made a difference. -/
def addReach (w : Written) (v : VarId) (refs : RefSet) : Written × Bool :=
  let old := w.reach.getD v {}
  let all := old.union refs
  ({ w with reach := w.reach.insert v all }, all.size != old.size)

/-- Adds the members of a list one by one. Tells whether one of them made a difference. -/
def addAll {α : Type} (add : Written → α → Written × Bool) (items : List α) (w : Written) :
    Written × Bool :=
  items.foldl (fun acc item =>
    let (w, changed) := add acc.1 item
    (w, acc.2 || changed)) (w, false)

/-- Adds all that another union holds. Tells whether that made a difference. -/
def absorb (w other : Written) : Written × Bool :=
  let (w, vars) := addAll (fun w e => w.addValue e.1 e.2) other.vars.toList w
  let (w, heap) := addAll (fun w e => w.addObject e.1 e.2) other.heap.toList w
  let (w, reach) := addAll (fun w e => w.addReach e.1 e.2) other.reach.toList w
  (w, vars || heap || reach)

end Written

/-! ## States -/

/-- What cannot be relied on inside a loop, because another round of it may change it. -/
structure Boundary where
  /-- Variables that the loop writes. -/
  vars : VarSet := {}
  /-- Objects that the loop changes. -/
  refs : RefSet := {}
  /-- References that the loop may make reachable from a variable. -/
  reach : Reach := {}

/-- The changes made by one piece of code. -/
structure Layer where
  boundary : Option Boundary := none
  vars : Values := {}
  heap : Objects := {}
  reach : Reach := {}
  written : Written := {}
  /-- Control cannot reach the current point. -/
  dead : Bool := false

/-- A layer on top of those of the code around it, innermost first. -/
structure State where
  top : Layer := {}
  below : List Layer := []

/-- What a state knows of an object. -/
inductive ObjectLookup where
  | found (object : HeapObject)
  /-- The loop around changes it. -/
  | changing
  /-- The program has not touched it so far. -/
  | missing

namespace Layer

/-- Whether the loop of this layer writes a variable. -/
def bounds (l : Layer) (v : VarId) : Bool := (l.boundary.map (·.vars.contains v)).getD false

/-- Whether the loop of this layer changes an object. -/
def boundsObject (l : Layer) (r : Reference) : Bool :=
  (l.boundary.map (·.refs.contains r)).getD false

def lookupIn (v : VarId) : List Layer → Option Value
  | [] => none
  | l :: rest =>
    match l.vars[v]? with
    | some value => some value
    | none => if l.bounds v then some .unknown else lookupIn v rest

def reachIn (v : VarId) : List Layer → RefSet
  | [] => {}
  | l :: rest =>
    match l.reach[v]? with
    | some refs => refs
    | none =>
      match l.boundary.bind (·.reach[v]?) with
      | some extra => (reachIn v rest).union extra
      | none => reachIn v rest

def objectIn (r : Reference) : List Layer → ObjectLookup
  | [] => .missing
  | l :: rest =>
    match l.heap[r]? with
    | some o => .found o
    | none => if l.boundsObject r then .changing else objectIn r rest

end Layer

namespace State

/-- All layers, innermost first. -/
def layers (s : State) : List Layer := s.top :: s.below

/-- A state for code that may or may not run. -/
def child (s : State) : State := { below := s.layers }

/-- A state for a round of a loop. -/
def round (s : State) (boundary : Boundary) : State :=
  { top := { boundary := some boundary }, below := s.layers }

def modifyTop (s : State) (f : Layer → Layer) : State := { s with top := f s.top }

def isDead (s : State) : Bool := s.top.dead

def markDead (s : State) : State := s.modifyTop fun l => { l with dead := true }

/-- The value of a variable, if it was set or if a loop around may set it. -/
def lookup (s : State) (v : VarId) : Option Value := Layer.lookupIn v s.layers

/-- The value of a variable, which it may have had from the start. -/
def current (s : State) (scopes : ScopeTree) (v : VarId) : Value :=
  (s.lookup v <|> scopes.initialValue v).getD .unknown

/-- The references that may be reached from a variable. -/
def reachOf (s : State) (v : VarId) : RefSet := Layer.reachIn v s.layers

def lookupObject (s : State) (r : Reference) : ObjectLookup := Layer.objectIn r s.layers

/-- The current version of an object, unless it does not exist yet at this point. -/
def object? (s : State) (r : Reference) : Option HeapObject :=
  match s.lookupObject r with
  | .found o => some o
  | .changing => some .unknown
  | .missing => r.initialObject?

/-- The current version of an object. -/
def deref (s : State) (r : Reference) : HeapObject := (s.object? r).getD .unknown

/-- Gives a variable a value. If anything may be in it, then also what it could reach before. -/
def setValue (s : State) (v : VarId) (value : Value) : State :=
  let held := RefSet.ofList value.references
  let refs := if value.isUnknown then held.union (s.reachOf v) else held
  s.modifyTop fun l => { l with
    vars := l.vars.insert v value
    reach := l.reach.insert v refs
    written := ((l.written.addValue v value).1.addReach v refs).1 }

/-- Makes `o` the current version of an object. -/
def putObject (s : State) (r : Reference) (o : HeapObject) : State :=
  s.modifyTop fun l => { l with
    heap := l.heap.insert r o
    written := (l.written.addObject r o).1 }

end State

/-! ## Merging -/

/-- A step that may let references escape. -/
abbrev Escaping := StateM RefSet

namespace Escaping

def escape (refs : List Reference) : Escaping Unit := modify (·.extend refs)

/-- Joins two values. If anything is possible afterwards, what they referred to escapes. -/
def join (a b : Value) : Escaping Value := do
  let merged := a.or b
  if merged.isUnknown then
    escape a.references
    escape b.references
  return merged

/-- Joins two versions of an object. The references that the result no longer holds escape. -/
def joinObjects (a b : HeapObject) : Escaping HeapObject := do
  let merged := a.or b
  let kept := RefSet.ofList merged.references
  escape ((a.references ++ b.references).filter fun r => !kept.contains r)
  return merged

end Escaping

namespace State

open Escaping

/-- Joins two versions of an object, each of which may be missing and is then as it was before. -/
def joinVersions (s : State) (r : Reference) (a b : Option HeapObject) :
    Escaping (Option HeapObject) := do
  match a <|> s.object? r, b <|> s.object? r with
  | some a, some b => return some (← joinObjects a b)
  | some o, none | none, some o => return some o
  | none, none => return none

def absorb (s : State) (w : Written) : State :=
  s.modifyTop fun l => { l with written := (l.written.absorb w).1 }

def putValue (s : State) (v : VarId) (value : Value) : State :=
  s.modifyTop fun l => { l with vars := l.vars.insert v value }

def putReach (s : State) (v : VarId) (refs : RefSet) : State :=
  s.modifyTop fun l => { l with reach := l.reach.insert v refs }

def putVersion (s : State) (r : Reference) (o : HeapObject) : State :=
  s.modifyTop fun l => { l with heap := l.heap.insert r o }

/-- Merges code that certainly ran. The variables of the scope `discard` go out of scope. -/
def mergeBack (s : State) (scopes : ScopeTree) (delta : Layer) (discard : Option ScopeId) : State :=
  let keeps (v : VarId) : Bool := discard != some (scopes.var v).scope
  let s := s.absorb delta.written
  let s := s.modifyTop fun l => { l with dead := l.dead || delta.dead }
  let s := (delta.vars.toList.filter (keeps ·.1)).foldl (fun s e => s.putValue e.1 e.2) s
  let s := (delta.reach.toList.filter (keeps ·.1)).foldl (fun s e => s.putReach e.1 e.2) s
  delta.heap.toList.foldl (fun s e => s.putVersion e.1 e.2) s

/-- The keys of two maps, in order. -/
def eitherKey {κ α : Type} [Ord κ] (a b : Std.TreeMap κ α) : List κ :=
  ((Std.TreeSet.ofList a.keys : Std.TreeSet κ).insertMany b.keys).toList

/-- Merges two pieces of code of which exactly one ran, and which both may come to their end. -/
def mergeLive (s : State) (scopes : ScopeTree) (a b : Layer) : Escaping State := do
  let mut s := (s.absorb a.written).absorb b.written
  for v in eitherKey a.vars b.vars do
    let before := s.current scopes v
    s := s.putValue v (← join (a.vars.getD v before) (b.vars.getD v before))
  for r in eitherKey a.heap b.heap do
    match ← s.joinVersions r a.heap[r]? b.heap[r]? with
    | some o => s := s.putVersion r o
    | none => pure ()
  for v in eitherKey a.reach b.reach do
    let before := s.reachOf v
    s := s.putReach v ((a.reach.getD v before).union (b.reach.getD v before))
  return s

/-- Merges two pieces of code of which exactly one ran. One that never comes to its end counts only
for what it wrote on the way. -/
def mergeOr (s : State) (scopes : ScopeTree) (a b : Layer) : Escaping State :=
  match a.dead, b.dead with
  | true, true => return ((s.absorb a.written).absorb b.written).markDead
  | true, false => return (s.absorb a.written).mergeBack scopes b none
  | false, true => return (s.absorb b.written).mergeBack scopes a none
  | false, false => s.mergeLive scopes a b

/-- Merges code that may or may not have run. -/
def mergeMaybe (s : State) (scopes : ScopeTree) (delta : Layer) : Escaping State := do
  let mut s := s.absorb delta.written
  if delta.dead then return s
  for (v, value) in delta.vars.toList do
    s := s.putValue v (← join (s.current scopes v) value)
  for (r, o) in delta.heap.toList do
    match ← s.joinVersions r none (some o) with
    | some o => s := s.putVersion r o
    | none => pure ()
  for (v, refs) in delta.reach.toList do
    s := s.putReach v ((s.reachOf v).union refs)
  return s

/-- Merges code that may have run any number of times and may have stopped anywhere, through all
that it wrote. -/
def mergeUnsure (s : State) (scopes : ScopeTree) (written : Written) : Escaping State := do
  let mut s := s
  for (v, value) in written.vars.toList do
    let before := s.current scopes v
    let merged ← join before value
    if merged != before || (s.lookup v).isNone then
      s := s.putValue v merged
  for (r, o) in written.heap.toList do
    let before := s.object? r
    match ← s.joinVersions r none (some o) with
    | some merged => if before != some merged then s := s.putVersion r merged
    | none => pure ()
  for (v, refs) in written.reach.toList do
    let before := s.reachOf v
    let all := before.union refs
    if all.size != before.size then
      s := s.putReach v all
  return s.absorb written

/-- As `mergeUnsure`. Tells also whether that made a difference. -/
def mergeUnsureNoting (s : State) (scopes : ScopeTree) (written : Written) :
    Escaping (State × Bool) := do
  let mut s := s
  let mut changed := false
  for (v, value) in written.vars.toList do
    let before := s.current scopes v
    let merged ← join before value
    if merged != before || (s.lookup v).isNone then
      s := s.putValue v merged
      changed := true
  for (r, o) in written.heap.toList do
    let before := s.object? r
    match ← s.joinVersions r none (some o) with
    | some merged =>
      if before != some merged then
        s := s.putVersion r merged
        changed := true
    | none => pure ()
  for (v, refs) in written.reach.toList do
    let before := s.reachOf v
    let all := before.union refs
    if all.size != before.size then
      s := s.putReach v all
      changed := true
  return (s.absorb written, changed)

end State

end EsOptimizer
