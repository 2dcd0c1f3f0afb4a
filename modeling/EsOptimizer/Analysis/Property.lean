import EsOptimizer.Analysis.Track

/-!
# Properties

Reading, writing, deleting and enumerating properties of values that may be one of several, with all
that may happen on the way: getters and setters, inherited properties, properties of primitive
values, and objects about which nothing is known.
-/

namespace EsOptimizer

/-- The effect of an assignment to a property. -/
inductive WriteTarget where
  /-- A property of the object's own is created or changed. -/
  | data
  | setter (set : Reference)
  /-- Nothing happens. -/
  | ignored
  | unknown

/-- The properties that a `for-in` loop visits. -/
inductive LoopKeys where
  /-- None at all. -/
  | empty
  | known (ref : Reference) (keys : List String)
  | unknown

def WriteTarget.ofDescriptor (d : Descriptor) : WriteTarget :=
  match d.content with
  | .accessor _ (some set) => .setter set
  | .accessor _ none => .ignored
  | .data _ => if d.writable then .data else .ignored

namespace Track

/-! ## Reading -/

/-- What a call of a getter or setter of the program does, if it is known. -/
def accessorSummary? (accessor : Reference) : Track (Option FunctionSummary) := do
  let prev := (← read).prev
  return accessor.function?.bind (prev.summaries[·]?)

/-- Reads a property of an object that `this` refers to, or of one of its prototypes. -/
def readObject (o : HeapObject) (this : Reference) (name : String) : Track Tracked := do
  match o.lookup (← heap) name with
  | .absent => return .ofPure .undefined
  | .value v => return .ofPure v
  | .getter get =>
    let (value, pure) := match ← accessorSummary? get with
      | some summary => (summary.returns, summary.pure)
      | none => (.unknown, false)
    if !pure then unknownCall [this]
    return ⟨value, pure⟩
  | .unknown =>
    unknownCall [this]
    return .ofImpure .unknown

/-- The element of a text at an index. -/
def textElement (us : List UInt16) (i : Nat) : Value :=
  match us[i]? with
  | none => .undefined
  | some u => (Text.ofUnits? [u]).elim .unknown Value.string

/-- Reads a property that a built-in prototype gives to a primitive value. -/
def readPrototype (h : Host) (name : String) : Track Tracked := do
  readObject (← deref (.host h)) (.host h) name

/-- Reads a property of a primitive value. -/
def readPrimitive (p : Primitive) (name : String) : Track Tracked := do
  match p with
  | .undefined | .null =>
    noteEffect
    return .ofImpure .unknown
  | .string s =>
    let us := Text.units s
    if name = "length" then return .ofPure (.nat us.length)
    else match arrayIndex? name with
      | some i => return .ofPure (textElement us i)
      | none => readPrototype .stringPrototype name
  | .number _ => readPrototype .numberPrototype name
  | .bool _ => readPrototype .booleanPrototype name

def readSingle (s : Single) (name : String) : Track Tracked := do
  match s with
  | .primitive p => readPrimitive p name
  | .reference r => readObject (← deref r) r name

/-- `obj[key]` -/
def readProperty (obj key : Value) : Track Tracked := do
  let some names ← propertyNames key | return .ofImpure .unknown
  let some singles := obj.singles?
    | do
      unknownCall []
      return .ofImpure .unknown
  let mut value : Option Value := none
  let mut pure := true
  for s in singles do
    for name in names do
      let t ← readSingle s name
      pure := pure && t.pure
      value ← joinTo value t.value
  return ⟨value.getD .unknown, pure⟩

/-! ## Writing -/

/-- Searches `n` prototypes for a property that an assignment would meet. -/
def inheritedTarget (heap : Heap) (name : String) : Nat → Option Reference → WriteTarget
  | 0, _ => .unknown
  | _ + 1, none => .data
  | n + 1, some r =>
    let o := heap.deref r
    if !o.isTrusted heap then .unknown
    else match o.get? name with
      | some d => .ofDescriptor d
      | none => if o.knowledge = .mayHaveNew then .unknown else inheritedTarget heap name n o.proto

/-- The effect of an assignment to a property of an object. -/
def writeTarget (heap : Heap) (o : HeapObject) (name : String) : WriteTarget :=
  match o.get? name with
  | some d => .ofDescriptor d
  | none => inheritedTarget heap name HeapObject.maxLinks o.proto

/-- Runs a setter. -/
def callSetter (set this : Reference) (value : Value) : Track Unit := do
  match ← accessorSummary? set with
  | some summary => if !summary.pure then unknownCall (this :: value.references)
  | none => unknownCall (this :: value.references)

/-- Assigns a data property. If the object is only one of several (`weak`), it may also stay as it
is. -/
def writeData (weak : Bool) (r : Reference) (o : HeapObject) (name : String) (value : Value) :
    Track Unit := do
  let written := o.withProperty name value
  let updated ← if weak then escaping (Escaping.joinObjects o written) else pure written
  if updated.dirty then escape value.references
  updateObject r updated

/-- Assigns a property of one of the objects that a value may be. -/
def writeReference (weak : Bool) (r : Reference) (name : String) (value : Value) : Track Unit := do
  if name = "__proto__" then
    escape value.references
    makeDirty r
  else
    let o ← deref r
    if o.dirty then
      escape value.references
      noteChange r
    else match writeTarget (← heap) o name with
      | .data => writeData weak r o name value
      | .setter set => callSetter set r value
      | .ignored => return
      | .unknown => unknownCall (r :: value.references)

/-- The one name that a value converts to, if there is just one. -/
def propertyName (key : Value) : Track (Option String) := do
  match ← propertyNames key with
  | some [name] => return some name
  | _ => return none

/-- `obj[key] = value` -/
def writeProperty (obj key value : Value) : Track Unit := do
  match obj.singles? with
  | none => unknownCall value.references
  | some singles =>
    match ← propertyName key with
    | none =>
      escape value.references
      obj.references.forM makeDirty
    | some name =>
      for s in singles do
        match s with
        | .primitive p => if p.isNullish then noteEffect
        | .reference r => writeReference (singles.length > 1) r name value

/-! ## Deleting -/

/-- Deletes a property of one of the objects that a value may be. Gives the possible results. -/
def deleteReference (r : Reference) (name : String) : Track (List Bool) := do
  let o ← deref r
  if o.dirty then
    makeDirty r
    return [true, false]
  match o.get? name with
  | some d =>
    if d.configurable then
      updateObject r (o.withoutProperty name)
      return [true]
    else return [false]
  | none =>
    if o.knowledge = .mayHaveNew then
      makeDirty r
      return [true, false]
    else return [true]

def deleteSingle (s : Single) (name : String) : Track (List Bool) := do
  match s with
  | .reference r => deleteReference r name
  | .primitive p =>
    if p.isNullish then noteEffect
    return [true, false]

/-- A value that is one of some booleans. -/
def ofBools (bs : List Bool) : Value := .ofSingles (bs.map fun b => .primitive (.bool b))

/-- `delete obj[key]` -/
def deleteProperty (obj key : Value) : Track Value := do
  match ← propertyName key with
  | none =>
    obj.references.forM makeDirty
    return .eitherBool
  | some name =>
    match obj.singles? with
    | none =>
      unknownCall []
      return .eitherBool
    | some singles => return ofBools (← singles.mapM (deleteSingle · name)).flatten

/-! ## Testing and enumerating -/

/-- `key in obj` -/
def hasProperty (key obj : Value) : Track Tracked := do
  match obj.singles?.bind (·.mapM Single.reference?) with
  | none =>
    noteEffect
    discard (toPrimitive [key])
    return .ofImpure .eitherBool
  | some refs =>
    match ← propertyNames key with
    | none => return .ofImpure .eitherBool
    | some names =>
      let heap ← heap
      let answers := refs.flatMap fun r => names.map ((heap.deref r).has heap)
      return .ofPure ((answers.mapM id).elim .eitherBool ofBools)

/-- `value instanceof callee` -/
def instanceOf (value callee : Value) : Track Tracked := do
  if !(callee.reference?.map Reference.isFunction).getD false then
    noteEffect
    return .ofImpure .eitherBool
  let proto ← readProperty callee (.string "prototype")
  match proto.value.reference?, proto.pure with
  | some proto, true =>
    let heap ← heap
    let answer (s : Single) : Option Bool := match s with
      | .primitive _ => some false
      | .reference r => (heap.deref r).inheritsFrom heap proto
    let answers := value.singles?.bind (·.mapM answer)
    return .ofPure (answers.elim .eitherBool ofBools)
  | _, _ =>
    noteEffect
    return .ofImpure .eitherBool

/-- The properties that a `for-in` loop over a value visits. -/
def enumerate (value : Value) : Track LoopKeys := do
  match value.single? with
  | some (.primitive p) => return if p.isNullish then .empty else .unknown
  | some (.reference r) =>
    match (← deref r).keys? (← heap) with
    | some [] => return .empty
    | some keys => return .known r keys
    | none => return .unknown
  | none => return .unknown

end Track

end EsOptimizer
