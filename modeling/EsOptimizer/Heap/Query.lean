import EsOptimizer.Heap.Object

/-!
# Questions to the heap

Looking up a property, enumerating properties and testing for an instance all walk the chain of
prototypes. A chain of more than thirty-two links is taken to be cyclic, and then there is no
answer.
-/

namespace EsOptimizer

/-- What a question needs to know of the other objects. -/
structure Heap where
  /-- The object of a reference. -/
  deref : Reference → HeapObject
  /-- Whether built-in objects are as the language defines them. -/
  trustsNatives : Bool

/-- The outcome of looking up a property. -/
inductive Lookup where
  /-- The property certainly does not exist. -/
  | absent
  | value (value : Value)
  /-- The property is what this getter returns. -/
  | getter (get : Reference)
  | unknown
deriving BEq, Repr

/-- What a property that was found gives. -/
def Lookup.ofDescriptor (d : Descriptor) : Lookup :=
  match d.content with
  | .data v => .value v
  | .accessor (some get) _ => .getter get
  | .accessor none _ => .value .undefined

namespace HeapObject

/-- The number of links of a chain that are followed. -/
def maxLinks : Nat := 32

/-- Whether what is known of an object can be relied on. -/
def isTrusted (o : HeapObject) (heap : Heap) : Bool :=
  !o.dirty && (o.host.isNone || heap.trustsNatives)

/-- Looks up a property on a chain of at most `n` objects. -/
def lookupWithin (heap : Heap) (name : String) : Nat → HeapObject → Lookup
  | 0, _ => .unknown
  | n + 1, o =>
    if !o.isTrusted heap then .unknown
    else match o.get? name with
      | some d => Lookup.ofDescriptor d
      | none =>
        if o.knowledge = .mayHaveNew then .unknown
        else match o.proto with
          | none => if o.knowledge = .knowsAll then .absent else .unknown
          | some proto =>
            match lookupWithin heap name n (heap.deref proto) with
            | .absent => if o.knowledge = .knowsAll then .absent else .unknown
            | found => found

/-- Looks up a property, inherited ones included. -/
def lookup (o : HeapObject) (heap : Heap) (name : String) : Lookup :=
  lookupWithin heap name (maxLinks + 1) o

/-- Tests for a property on a chain of at most `n` objects. -/
def hasWithin (heap : Heap) (name : String) : Nat → HeapObject → Option Bool
  | 0, _ => none
  | n + 1, o =>
    if !o.isTrusted heap then none
    else if o.owns name then some true
    else if o.knowledge ≠ .knowsAll then none
    else match o.proto with
      | none => some false
      | some proto => hasWithin heap name n (heap.deref proto)

/-- Whether the object has a property, inherited ones included. -/
def has (o : HeapObject) (heap : Heap) (name : String) : Option Bool :=
  hasWithin heap name maxLinks o

/-- The enumerable properties of the object's own: indices in ascending order, then the others in
the order in which they were added. -/
def ownKeys (o : HeapObject) : List String :=
  let keys := (o.properties.filter fun p => p.2.enumerable).map (·.1)
  let indices := keys.filterMap fun k => (arrayIndex? k).map fun i => (i, k)
  (indices.mergeSort fun a b => a.1 ≤ b.1).map (·.2) ++ keys.filter fun k => (arrayIndex? k).isNone

/-- Enumerates along a chain of at most `n` objects. -/
def keysWithin (heap : Heap) : Nat → HeapObject → Option (List String)
  | 0, _ => none
  | n + 1, o =>
    if !o.isTrusted heap || o.knowledge.rank < Knowledge.noUnknownOverrideOrEnumerable.rank then none
    else match o.proto with
      | none => some o.ownKeys
      | some proto =>
        (keysWithin heap n (heap.deref proto)).map fun inherited =>
          o.ownKeys ++ inherited.filter fun k => !o.owns k

/-- The properties that a `for-in` loop visits, in order: the object's own, then inherited ones that
it does not hide. There is no answer if an object of the chain may have others. -/
def keys? (o : HeapObject) (heap : Heap) : Option (List String) := keysWithin heap (maxLinks + 1) o

/-- Searches a chain of at most `n` objects for a prototype. -/
def inheritsWithin (heap : Heap) (proto : Reference) : Nat → HeapObject → Option Bool
  | 0, _ => none
  | n + 1, o =>
    if o.dirty then none
    else match o.proto with
      | none => some false
      | some p => if p = proto then some true else inheritsWithin heap proto n (heap.deref p)

/-- Whether `proto` is on the object's chain of prototypes. -/
def inheritsFrom (o : HeapObject) (heap : Heap) (proto : Reference) : Option Bool :=
  inheritsWithin heap proto maxLinks o

end HeapObject

end EsOptimizer
