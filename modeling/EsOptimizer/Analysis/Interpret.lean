import EsOptimizer.Analysis.Call

/-!
# Following a program

Statements and expressions are followed in the order in which they run. A branch whose test is
decided is followed alone; otherwise both ways are followed and merged. Nothing that comes after the
end of control is followed.
-/

namespace EsOptimizer

namespace Track

/-! ## Parts of expressions -/

/-- Evaluates a node and records the outcome. -/
def recorded (id : NodeId) (step : Track Tracked) : Track Tracked := do
  let t ← step
  record id t
  notify .expr id
  return t

/-- Reads a variable by name. Reading one that may not exist yet can throw, unless it is the operand
of `typeof`. -/
def readIdent (ident : Ident) (mayThrow : Bool) : Track Tracked := do
  match (← read).scopes.varOf ident.id with
  | none => return .ofPure .unknown
  | some id =>
    let v ← getVar id
    let value ← readVar id
    let unassigned := ((← getState).lookup id).isNone && v.initial.isNone
    let throws := unassigned &&
      (v.kind = .implicit || (v.isBlockScoped && v.fnScope = (← get).frame.scope))
    if throws && mayThrow then
      noteEffect
      return .ofImpure value
    else return .ofPure value

/-- Assigns a variable by name. -/
def assignIdent (ident : Ident) (value : Value) : Track Unit := do
  match (← read).scopes.varOf ident.id with
  | none => return
  | some id => if (← getVar id).kind = .const then noteEffect else writeVar id value

/-- Assigns a variable by name, also a constant. -/
def initIdent (ident : Ident) (value : Value) : Track Unit := do
  match (← read).scopes.varOf ident.id with
  | none => return
  | some id => writeVar id value

/-- The value to assign: the right side, or its combination with the old value, which is read
first. -/
def assigned (op : AssignOp) (old right : Track Tracked) : Track Value := do
  match op.binary? with
  | none => return (← right).value
  | some op =>
    let old ← old
    let right ← right
    return (← binary op old.value right.value).value

/-- An assignment to a variable. -/
def assignToIdent (op : AssignOp) (ident : Ident) (right : Track Tracked) : Track Tracked := do
  let value ← assigned op (readIdent ident true) right
  assignIdent ident value
  return .ofImpure value

/-- An assignment to a property. -/
def assignToProperty (op : AssignOp) (obj key : Value) (right : Track Tracked) : Track Tracked := do
  let value ← assigned op (readProperty obj key) right
  writeProperty obj key value
  return .ofImpure value

/-- `++` and `--` give the new value if they stand before, and the old one otherwise. -/
def updateOutcome (before : Bool) (values : Value × Value) : Tracked :=
  .ofImpure (if before then values.2 else values.1)

/-- An update of a variable. -/
def updateIdent (op : UpdateOp) (before : Bool) (ident : Ident) : Track Tracked := do
  let old ← readIdent ident true
  let values ← updated op old.value
  assignIdent ident values.2
  return updateOutcome before values

/-- An update of a property. -/
def updateProperty (op : UpdateOp) (before : Bool) (obj key : Value) : Track Tracked := do
  let old ← readProperty obj key
  let values ← updated op old.value
  writeProperty obj key values.2
  return updateOutcome before values

/-- The operand of `typeof`, if it is a name: it is read even if it does not exist. -/
def typeOfIdent (ident : Ident) : Track Tracked :=
  recorded ident.id (readIdent ident false)

/-- `typeof`, after its operand. -/
def typeOfOutcome (arg : Tracked) : Tracked :=
  { arg with value := arg.value.map fun s => .string s.typeOf }

/-- Deletes a variable; only those that were never declared can be deleted. -/
def deleteIdent (ident : Ident) : Track Tracked := do
  match (← read).scopes.varOf ident.id with
  | none => pure ()
  | some id => if (← getVar id).kind = .implicit then writeVar id .unknown
  noteEffect
  return .ofImpure .eitherBool

/-- `!`, after its operand. -/
def notOutcome (arg : Tracked) : Tracked :=
  { arg with value := (arg.value.truthiness.map fun b => .bool !b).getD .eitherBool }

/-- `&&` and `||`: the right side runs if the left side does not decide. -/
def logical (isOr : Bool) (left right : Track Tracked) : Track Tracked := do
  let left ← left
  match left.value.truthiness with
  | some truthy =>
    if truthy = isOr then return left
    else return (← right).after left.pure
  | none =>
    let (right, delta) ← inChild right
    mergeMaybe delta
    let kept := left.value.filter (·.truthy == isOr)
    return ⟨← join kept right.value, left.pure && right.pure⟩

/-- A choice between two expressions. -/
def choose (test yes no : Track Tracked) : Track Tracked := do
  let test ← test
  match test.value.truthiness with
  | some true => return (← yes).after test.pure
  | some false => return (← no).after test.pure
  | none =>
    let (yes, a) ← inChild yes
    let (no, b) ← inChild no
    mergeOr a b
    return ⟨← join yes.value no.value, test.pure && yes.pure && no.pure⟩

/-- Allocates a regular expression. -/
def allocateRegex (id : NodeId) : Track Tracked := do
  let r := Reference.node id .regex
  allocate r
    ((HeapObject.empty (some (.host .regExpPrototype)) .knowsAll).insert "lastIndex"
      (.hidden (.nat 0)))
  return .ofPure (.ofReference r)

/-- An expression that cannot be assigned to, after it was evaluated. -/
def refuseTarget (value : Value) : Track Tracked := do
  noteEffect
  return .ofImpure value

/-- A call, given the callee, the value that it is called on, and the arguments. -/
def callOutcome (callee : Tracked) (this : Value) (args : List Tracked) : Track Tracked := do
  let t ← call callee.value this (args.map (·.value))
  return t.after (callee.pure && args.all (·.pure))

/-- Reads the property that a call calls. -/
def readCallee (node : NodeId) (obj key : Tracked) : Track Tracked :=
  recorded node do
    return (← readProperty obj.value key.value).after (obj.pure && key.pure)

/-! ## Object literals -/

/-- An object literal under construction. -/
structure Literal where
  object : HeapObject := .empty (some (.host .objectPrototype)) .knowsAll
  pure : Bool := true
  /-- A property of unknown name was added. -/
  unknownKey : Bool := false

/-- The name of a property, if it is known, and how it was given. -/
structure LiteralKey where
  name : Option String
  computed : Bool := false
  pure : Bool := true

namespace Literal

/-- Notes that a property of unknown name holds these references. -/
def addUnknown (l : Literal) (refs : List Reference) : Track Literal := do
  escape refs
  return { l with unknownKey := true }

/-- Sets the prototype, as a property `__proto__` does if its name is not computed. -/
def setProto (l : Literal) (value : Value) : Track Literal := do
  match value.single? with
  | some (.reference r) => return { l with object := { l.object with proto := some r } }
  | some (.primitive .null) => return { l with object := { l.object with proto := none } }
  | some (.primitive _) => return l
  | none => l.addUnknown value.references

/-- Adds a property with a value. -/
def addValue (l : Literal) (key : LiteralKey) (t : Tracked) : Track Literal := do
  let l := { l with pure := l.pure && key.pure && t.pure }
  match key.name with
  | none => l.addUnknown t.value.references
  | some name =>
    if name = "__proto__" && !key.computed then l.setProto t.value
    else return { l with object := l.object.insert name (.data t.value) }

/-- The getter and setter that a property has so far. -/
def accessors (l : Literal) (name : String) : Option Reference × Option Reference :=
  match (l.object.get? name).map Descriptor.content with
  | some (.accessor get set) => (get, set)
  | _ => (none, none)

/-- Adds a getter, or a setter; the other one stays. -/
def addAccessor (l : Literal) (key : LiteralKey) (isGetter : Bool) (fn : Reference) :
    Track Literal := do
  let l := { l with pure := l.pure && key.pure }
  match key.name with
  | none => l.addUnknown [fn]
  | some name =>
    let (get, set) := l.accessors name
    let d := if isGetter then Descriptor.accessor (some fn) set else .accessor get (some fn)
    return { l with object := l.object.insert name d }

/-- Allocates the finished object. -/
def finish (l : Literal) (id : NodeId) : Track Tracked := do
  let r := Reference.object id
  if l.unknownKey then
    escape (l.object.references ++ [r])
    allocate r .unknown
  else allocate r l.object
  return ⟨.ofReference r, l.pure⟩

end Literal

/-! ## Parts of statements -/

/-- Gives the variables of a scope the values that they have from the start, and allocates the
functions that are declared in it. -/
def enterScope (scope : ScopeId) : Track Unit := do
  let scopes := (← read).scopes
  let s := scopes.scope scope
  for (_, id) in s.vars do
    match scopes.initialValue id with
    | some value => writeVar id value
    | none => pure ()
  for (id, function) in s.hoisted do
    let r ← allocateFunction function
    writeVar id (.ofReference r)

/-- Follows code with a scope of its own, if the node has one. -/
def inScope (node : NodeId) (body : Track Unit) : Track Unit := do
  let scope := (← read).scopes.scopeOf node
  let (_, delta) ← inChild do
    match scope with
    | some s => enterScope s
    | none => pure ()
    body
  mergeBack delta scope

/-- Follows a statement, unless control has ended. -/
def followed (id : NodeId) (step : Track Unit) : Track Unit := do
  if !(← getState).isDead then
    step
    notify .stmt id

/-- Ends control. -/
def endControl : Track Unit := modifyState State.markDead

/-- A choice between two statements, of which the second may be missing. -/
def branch (test : Track Tracked) (yes : Track Unit) (no : Option (Track Unit)) : Track Unit := do
  let test ← test
  match test.value.truthiness with
  | some true => yes
  | some false => no.getD (pure ())
  | none =>
    let (_, a) ← inChild yes
    match no with
    | some no =>
      let (_, b) ← inChild no
      mergeOr a b
    | none => mergeMaybe a

/-- Returns a value. The caller may do anything with it. -/
def returnValue (value : Value) : Track Unit := do
  escape value.references
  let returns ← joinTo (← get).frame.returns value
  modifyFrame fun f => { f with returns }
  endControl

/-- Throws a value. -/
def throwValue (value : Value) : Track Unit := do
  escape value.references
  noteEffect
  endControl

/-- The keys are those that the loop started with only if it left the object alone. -/
def keysAfter (obj : Value) (r : Reference) (keys : List String) : Track (Option (List String)) := do
  match ← enumerate obj with
  | .known after afterKeys => return if after = r && afterKeys = keys then some keys else none
  | _ => return none

/-- A `for-in` loop over a value; `assign` gives the variable a key. -/
def forIn (id : NodeId) (written : VarSet) (obj : Value) (assign : Value → Track Unit)
    (body : Track Unit) : Track Unit := do
  match ← enumerate obj with
  | .empty => recordForIn id (some [])
  | .known r keys =>
    let key := Value.ofSingles (keys.map fun k => .primitive (.string k))
    loop written do
      assign key
      unsure body
    recordForIn id (← keysAfter obj r keys)
  | .unknown =>
    loop written do
      assign .unknown
      unsure body
    recordForIn id none

/-! ## The walk -/

mutual

/-- Evaluates an expression, and records the outcome. -/
def onExpr (e : Expr) : Track Tracked :=
  recorded e.id (
    match e with
    | .this _ | .invalid _ => pure (.ofPure .unknown)
    | .ident i => readIdent i true
    | .string _ s => pure (.ofPure (.string s))
    | .bool _ b => pure (.ofPure (.bool b))
    | .null _ => pure (.ofPure .null)
    | .number _ n => pure (.ofPure (.number n))
    | .regex id _ _ => allocateRegex id
    | .array id elems => do
      let elems ← onElems elems
      let r ← allocateArray id (elems.map (·.map Tracked.value))
      pure ⟨.ofReference r, elems.reduceOption.all (·.pure)⟩
    | .object id props => do (← onProps props {}).finish id
    | .function _ _ fn => do
      let r ← allocateFunction fn.id
      pure (.ofPure (.ofReference r))
    | .unary _ .typeOf (.ident i) => do pure (typeOfOutcome (← typeOfIdent i))
    | .unary _ .typeOf arg => do pure (typeOfOutcome (← onExpr arg))
    | .unary _ .delete (.ident i) => deleteIdent i
    | .unary _ .delete (.member _ obj name) => do
      let obj ← onExpr obj
      pure (.ofImpure (← deleteProperty obj.value (.string name.name)))
    | .unary _ .delete (.index _ obj key) => do
      let obj ← onExpr obj
      let key ← onExpr key
      pure (.ofImpure (← deleteProperty obj.value key.value))
    | .unary _ .delete arg => do pure { ← onExpr arg with value := .bool true }
    | .unary _ .void arg => do pure { ← onExpr arg with value := .undefined }
    | .unary _ .not arg => do pure (notOutcome (← onExpr arg))
    | .unary _ op arg => do numeric op (← onExpr arg)
    | .update _ op before (.ident i) => updateIdent op before i
    | .update _ op before (.member _ obj name) => do
      let obj ← onExpr obj
      updateProperty op before obj.value (.string name.name)
    | .update _ op before (.index _ obj key) => do
      let obj ← onExpr obj
      let key ← onExpr key
      updateProperty op before obj.value key.value
    | .update _ _ _ arg => do
      discard (onExpr arg)
      refuseTarget .unknown
    | .binary _ .or left right => logical true (onExpr left) (onExpr right)
    | .binary _ .and left right => logical false (onExpr left) (onExpr right)
    | .binary _ op left right => do
      let left ← onExpr left
      let right ← onExpr right
      pure ((← binary op left.value right.value).after (left.pure && right.pure))
    | .assign _ op (.ident i) right => assignToIdent op i (onExpr right)
    | .assign _ op (.member _ obj name) right => do
      let obj ← onExpr obj
      assignToProperty op obj.value (.string name.name) (onExpr right)
    | .assign _ op (.index _ obj key) right => do
      let obj ← onExpr obj
      let key ← onExpr key
      assignToProperty op obj.value key.value (onExpr right)
    | .assign _ _ left right => do
      discard (onExpr left)
      let right ← onExpr right
      refuseTarget right.value
    | .member _ obj name => do
      let obj ← onExpr obj
      pure ((← readProperty obj.value (.string name.name)).after obj.pure)
    | .index _ obj key => do
      let obj ← onExpr obj
      let key ← onExpr key
      pure ((← readProperty obj.value key.value).after (obj.pure && key.pure))
    | .cond _ test yes no => choose (onExpr test) (onExpr yes) (onExpr no)
    | .call _ (.member id obj name) args => do
      let obj ← onExpr obj
      let callee ← readCallee id obj (.ofPure (.string name.name))
      callOutcome callee obj.value (← onExprs args)
    | .call _ (.index id obj key) args => do
      let obj ← onExpr obj
      let key ← onExpr key
      let callee ← readCallee id obj key
      callOutcome callee obj.value (← onExprs args)
    | .call _ callee args => do
      let callee ← onExpr callee
      callOutcome callee .undefined (← onExprs args)
    | .new id callee args => do
      let callee ← onExpr callee
      let args ← onExprs args
      construct id callee.value (args.map (·.value))
    | .seq _ exprs => do
      let ts ← onExprs exprs
      pure ⟨(ts.getLast?.map (·.value)).getD .undefined, ts.all (·.pure)⟩)

def onElems : List (Option Expr) → Track (List (Option Tracked))
  | [] => return []
  | none :: rest => return none :: (← onElems rest)
  | some e :: rest => return some (← onExpr e) :: (← onElems rest)

def onExprs : List Expr → Track (List Tracked)
  | [] => return []
  | e :: rest => return (← onExpr e) :: (← onExprs rest)

/-- An expression that may be missing. -/
def onExpr? : Option Expr → Track (Option Tracked)
  | none => return none
  | some e => return some (← onExpr e)

def onKey : PropertyKey → Track LiteralKey
  | .ident i => return ⟨some i.name, false, true⟩
  | .string _ s => return ⟨some s, false, true⟩
  | .number _ n => return ⟨some n.toText, false, true⟩
  | .computed e => do
    let t ← onExpr e
    return ⟨← propertyName t.value, true, t.pure⟩

def onProperty : Property → Literal → Track Literal
  | .value _ key value, l => do
    let key ← onKey key
    l.addValue key (← onExpr value)
  | .getter _ key fn, l => do
    let key ← onKey key
    l.addAccessor key true (← allocateFunction fn.id)
  | .setter _ key fn, l => do
    let key ← onKey key
    l.addAccessor key false (← allocateFunction fn.id)

def onProps : List Property → Literal → Track Literal
  | [], l => return l
  | p :: rest, l => do onProps rest (← onProperty p l)

/-- Declarations give their variables values. A `var` without one leaves its variable alone. -/
def onDeclarators : List Declarator → DeclKind → Track Unit
  | [], _ => return
  | ⟨_, name, init⟩ :: rest, kind => do
    match ← onExpr? init with
    | some t => initIdent name t.value
    | none => if kind ≠ .var then initIdent name .undefined
    onDeclarators rest kind

def onDecl : VarDecl → Track Unit
  | ⟨_, kind, decls⟩ => onDeclarators decls kind

def onHead? : Option ForHead → Track Unit
  | none => return
  | some (.decl d) => onDecl d
  | some (.expr e) => discard (onExpr e)

/-- Gives the variable in the head of a `for-in` loop a key. -/
def onLoopHead : ForHead → Value → Track Unit
  | .decl d, key => d.decls.forM fun x => initIdent x.name key
  | .expr (.ident i), key => assignIdent i key
  | .expr (.member _ obj name), key => do
    let obj ← onExpr obj
    writeProperty obj.value (.string name.name) key
  | .expr (.index _ obj prop), key => do
    let obj ← onExpr obj
    let prop ← onExpr prop
    writeProperty obj.value prop.value key
  | .expr e, _ => do
    discard (onExpr e)
    noteEffect

def onBlock : Block → Track Unit
  | ⟨id, stmts⟩ => inScope id (onStmts stmts)

def onBlock? : Option Block → Track Unit
  | none => return
  | some b => onBlock b

def onHandler? : Option CatchClause → Track Unit
  | none => return
  | some ⟨id, param, body⟩ => unsure (inScope id do
    match param with
    | some p => initIdent p .unknown
    | none => pure ()
    onBlock body)

/-- Follows a statement, unless control has ended. -/
def onStmt (s : Stmt) : Track Unit :=
  followed s.id (
    match s with
    | .block b => onBlock b
    | .empty _ | .function _ _ _ => pure ()
    | .expr _ e => discard (onExpr e)
    | .var d => onDecl d
    | .if _ test yes no => branch (onExpr test) (onStmt yes) (onStmt? no)
    | .while _ test body => do
      if (← onExpr test).value.truthiness ≠ some false then
        loop ((← read).scopes.writtenIn s) do
          discard (onExpr test)
          unsure (onStmt body)
    | .doWhile _ body test => do
      loop ((← read).scopes.writtenIn s) do
        unsure (onStmt body)
        discard (onExpr test)
    | .for id init test update body => inScope id do
      onHead? init
      let entered := (← onExpr? test).all (·.value.truthiness ≠ some false)
      if entered then
        loop ((← read).scopes.writtenIn s) do
          discard (onExpr? test)
          unsure (onStmt body)
          discard (onExpr? update)
    | .forIn id head obj body => inScope id do
      let obj ← onExpr obj
      forIn id ((← read).scopes.writtenIn s) obj.value (onLoopHead head) (onStmt body)
    | .labeled _ _ body => if body.isLoop then onStmt body else unsure (onStmt body)
    | .try _ block handler finalizer => do
      unsure (onBlock block)
      onHandler? handler
      onBlock? finalizer
    | .return _ arg => do returnValue (((← onExpr? arg).map (·.value)).getD .undefined)
    | .throw _ arg => do throwValue (← onExpr arg).value
    | .break _ _ | .continue _ _ => endControl
    | .with _ obj body => do
      unknownCall (← onExpr obj).value.references
      unsure (onStmt body))

/-- A statement that may be missing. -/
def onStmt? : Option Stmt → Option (Track Unit)
  | none => none
  | some s => some (onStmt s)

def onStmts : List Stmt → Track Unit
  | [] => return
  | s :: rest => do onStmt s; onStmts rest

end

end Track

end EsOptimizer
