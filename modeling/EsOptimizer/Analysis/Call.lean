import EsOptimizer.Analysis.Property
import EsOptimizer.Host.Call

/-!
# Operators and calls

What operators, calls and constructors do to values that may be one of several. Functions of the
program are not entered: the run before has summed up what they do.
-/

namespace EsOptimizer

namespace Track

/-! ## Operators -/

/-- The outcomes of a comparison, where anything else than a boolean is either of the two. -/
def comparison (value : Value) : Value := if value.isUnknown then .eitherBool else value

/-- Equality of two values that are not converted. Two objects of one reference may be one object or
two. -/
def strictOutcome (negate : Bool) : Single → Single → Value
  | .primitive a, .primitive b => .bool (a.strictEquals b != negate)
  | .reference a, .reference b => if a = b then .eitherBool else .bool negate
  | _, _ => .bool negate

/-- Equality that may convert primitive values, of two primitive values or two objects. -/
def looseOutcome (negate : Bool) : Single → Single → Value
  | .primitive a, .primitive b => .bool (a.looseEquals b != negate)
  | .reference a, .reference b => if a = b then .eitherBool else .bool negate
  | _, _ => .bool negate

/-- Equality with something that is `undefined` or `null`, which no object equals. -/
def nullishOutcome (negate : Bool) : Single → Single → Value
  | .primitive a, .primitive b => .bool (a.looseEquals b != negate)
  | _, _ => .bool negate

/-- Whether one member is an object and the other is not. -/
def mixes : Single → Single → Bool
  | .reference _, .primitive _ | .primitive _, .reference _ => true
  | _, _ => false

/-- Whether an object may be compared with something that is none. -/
def mayMix (left right : Value) : Bool :=
  match left.singles?, right.singles? with
  | some ls, some rs => ls.any fun l => rs.any fun r => mixes l r
  | _, _ => true

/-- `==` and `!=` -/
def looseEquality (negate : Bool) (left right : Value) : Track Tracked := do
  if left.isNullish || right.isNullish then
    return .ofPure (comparison (left.product right (nullishOutcome negate)))
  else if mayMix left right then
    discard (toPrimitive [left, right])
    return .ofImpure .eitherBool
  else return .ofPure (left.product right (looseOutcome negate))

/-- An operator on two members. -/
def primitiveOutcome (op : BinaryOp) : Single → Single → Value
  | .primitive a, .primitive b => (Primitive.binary op a b).elim .unknown Value.ofPrimitive
  | _, _ => .unknown

/-- A binary operator that evaluates both operands. -/
def binary (op : BinaryOp) (left right : Value) : Track Tracked := do
  match op with
  | .strictEq => return .ofPure (comparison (left.product right (strictOutcome false)))
  | .strictNe => return .ofPure (comparison (left.product right (strictOutcome true)))
  | .looseEq => looseEquality false left right
  | .looseNe => looseEquality true left right
  | .in => hasProperty left right
  | .instanceOf => instanceOf left right
  | .or | .and => return .ofImpure .unknown
  | op =>
    if ← toPrimitive [left, right] then
      return .ofPure (left.product right (primitiveOutcome op))
    else return .ofImpure .unknown

/-- An operator that converts its operand to a number. -/
def numeric (op : UnaryOp) (arg : Tracked) : Track Tracked := do
  if ← toPrimitive [arg.value] then
    let value := arg.value.map fun s =>
      (s.primitive?.bind (Primitive.unary op)).elim .unknown Value.ofPrimitive
    return ⟨value, arg.pure⟩
  else return .ofImpure .unknown

/-- What an update adds. -/
def updateStep : UpdateOp → Number
  | .increment => .ofNat 1
  | .decrement => (Number.ofNat 1).neg

/-- The old value of an updated variable as a number, and the new value. -/
def updated (op : UpdateOp) (old : Value) : Track (Value × Value) := do
  if ← toPrimitive [old] then
    let old := old.map fun s => s.primitive?.elim .unknown fun p => .number p.toNumber
    let new := old.map fun s => match s with
      | .primitive (.number n) => .number (n.add (updateStep op))
      | _ => .unknown
    return (old, new)
  else return (.unknown, .unknown)

/-! ## Calls -/

/-- The references that a call hands to the function. -/
def handedOver (this : Value) (args : List Value) : List Reference :=
  this.references ++ args.flatMap Value.references

/-- Calls a function about which nothing is known. -/
def callUnknown (this : Value) (args : List Value) : Track Tracked := do
  unknownCall (handedOver this args)
  return .ofImpure .unknown

/-- What is known of a function of the program. -/
def summary? (function : NodeId) : Track (Option FunctionSummary) :=
  return (← read).prev.summaries[function]?

/-- Calls a function of the program. -/
def callFunction (function : NodeId) (this : Value) (args : List Value) : Track Tracked := do
  observeCall function args
  match ← summary? function with
  | none => callUnknown this args
  | some summary =>
    if !summary.pure then unknownCall (handedOver this args)
    return ⟨summary.returns, summary.pure⟩

/-- Calls an array method on an array that is known in full. -/
def callArray? (f : Native) (this : Value) (args : List Value) : Track (Option Tracked) := do
  let some r := this.reference? | return none
  let o ← deref r
  match o.elements?.bind (f.callArray · args) with
  | none => return none
  | some (elems, result) =>
    let mutates := f.effect = .mutatesReceiver
    if mutates then updateObject r (o.withElements elems)
    let value := match result with
      | .value v => v
      | .this => .ofReference r
    return some ⟨value, !mutates⟩

/-- Calls a built-in function. -/
def callNative (f : Native) (this : Value) (args : List Value) : Track Tracked := do
  if f.receiver = .array then
    match ← callArray? f this args with
    | some t => return t
    | none => callUnknown this args
  else if f.effect = .pure then
    let inputs := if f.receiver = .ignored then args else args ++ [this]
    if ← toPrimitive inputs then
      match f.callProduct this args with
      | some value => return .ofPure value
      | none =>
        noteEffect
        return .ofImpure .unknown
    else return .ofImpure .unknown
  else
    if !args.all Value.isPrimitive then unknownCall (handedOver this args)
    noteEffect
    return .ofImpure (if f matches .consoleLog | .consoleWarn | .consoleError then .undefined else .unknown)

/-- Calls one of the members of a value, if it is a function. -/
def callSingle? (s : Single) (this : Value) (args : List Value) : Track (Option Tracked) := do
  match s with
  | .reference (.node id .function) => return some (← callFunction id this args)
  | .reference (.host (.function f)) => return some (← callNative f this args)
  | _ =>
    noteEffect
    return none

/-- Calls a value. -/
def call (callee this : Value) (args : List Value) : Track Tracked := do
  match callee.singles? with
  | none => callUnknown this args
  | some singles =>
    let mut value : Option Value := none
    let mut pure := true
    for s in singles do
      match ← callSingle? s this args with
      | some t =>
        pure := pure && t.pure
        value ← joinTo value t.value
      | none => pure := false
    return ⟨value.getD .unknown, pure⟩

/-- The object that a constructor starts from. If it uses `this`, it may do anything to it. -/
def newInstance (usesThis : Bool) (proto : Value) : Option HeapObject :=
  if usesThis then none
  else match proto.single? with
    | some (.reference r) => some (.empty (some r) .knowsAll)
    | some (.primitive _) => some (.empty (some (.host .objectPrototype)) .knowsAll)
    | none => none

/-- Calls a function of the program as a constructor. -/
def constructFunction (node function : NodeId) (callee : Value) (args : List Value) :
    Track Tracked := do
  let proto ← readProperty callee (.string "prototype")
  let usesThis := (((← read).scopes.function? function).map (·.usesThis)).getD true
  let instanceRef := Reference.object node
  match newInstance usesThis proto.value with
  | some o => allocate instanceRef o
  | none =>
    escape [instanceRef]
    allocate instanceRef .unknown
  observeCall function args
  let summary ← summary? function
  if !(summary.map (·.pure)).getD false then
    unknownCall (instanceRef :: handedOver callee args)
  if (summary.map (·.returns.isPrimitive)).getD false then
    return .ofImpure (.ofReference instanceRef)
  else
    escape [instanceRef]
    return .ofImpure .unknown

/-- `new callee(args)`, at a node. -/
def construct (node : NodeId) (callee : Value) (args : List Value) : Track Tracked := do
  match callee.reference?.bind Reference.function? with
  | some function => constructFunction node function callee args
  | none => callUnknown callee args

end Track

end EsOptimizer
