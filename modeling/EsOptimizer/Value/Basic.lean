import EsOptimizer.Host
import EsOptimizer.Syntax.Tree
import EsOptimizer.Value.Primitive

/-!
# Values

What is known about the value of an expression: it is one `Single`, one of a few of them, or
anything at all. `Value.or` joins two pieces of knowledge. A set grows to sixteen members at most,
which bounds how often a value can change.
-/

namespace EsOptimizer

/-! ## References -/

/-- What kind of object a node allocates. -/
inductive Allocation where
  | object
  | array
  | regex
  | function
  /-- The `prototype` of a function. -/
  | prototype
deriving DecidableEq, Repr

namespace Allocation

/-- Which of the objects of one node it is. -/
def slot : Allocation → Nat
  | prototype => 1
  | _ => 0

def rank : Allocation → Nat
  | object => 0
  | array => 1
  | regex => 2
  | function => 3
  | prototype => 4

end Allocation

/-- The place where an object comes from. It stands for every object that comes from there: a node
inside a loop allocates many. -/
inductive Reference where
  /-- Objects that evaluating a node allocates. -/
  | node (id : NodeId) (kind : Allocation)
  | host (host : Host)
deriving DecidableEq, Repr

namespace Reference

/-- A plain object that a node allocates. -/
abbrev object (id : NodeId) : Reference := .node id .object

/-- The object of a function of the program. -/
abbrev function (id : NodeId) : Reference := .node id .function

def isHost : Reference → Bool
  | host _ => true
  | node _ _ => false

/-- The function of the program that a reference stands for. -/
def function? : Reference → Option NodeId
  | node id .function => some id
  | _ => none

/-- Whether a reference stands for functions. -/
def isFunction : Reference → Bool
  | node _ .function | host (.function _) => true
  | _ => false

/-- Nodes are listed before built-in objects. -/
def tier : Reference → Nat
  | node _ _ => 0
  | host _ => 1

/-- The place among the references of one tier: nodes by their ids, an object of a node before the
`prototype` that goes with it, and built-in objects by name. -/
def rank : Reference → Nat
  | node id kind => 5 * id + kind.rank
  | host h => h.rank

instance : Ord Reference := ⟨compareLex (compareOn tier) (compareOn rank)⟩

/-- How a reference is written: the node and the slot, or the name of the built-in object. -/
def text : Reference → String
  | node id kind => toString id ++ "." ++ toString kind.slot
  | host h => h.text

end Reference

/-! ## Single values -/

/-- Exactly one primitive value, or the objects of one reference. -/
inductive Single where
  | primitive (value : Primitive)
  | reference (ref : Reference)
deriving DecidableEq, Repr

namespace Single

/-- Whether two are the same value, or the objects of the same reference. -/
def same : Single → Single → Bool
  | primitive a, primitive b => a == b
  | reference a, reference b => a == b
  | _, _ => false

instance : BEq Single := ⟨same⟩

def truthy : Single → Bool
  | primitive p => p.truthy
  | reference _ => true

def primitive? : Single → Option Primitive
  | primitive p => some p
  | reference _ => none

def reference? : Single → Option Reference
  | primitive _ => none
  | reference r => some r

/-- What `typeof` answers. -/
def typeOf : Single → String
  | primitive p => p.typeOf
  | reference r => if r.isFunction then "function" else "object"

end Single

/-! ## The lattice -/

/-- The greatest size of a set. -/
def Value.maxSetSize : Nat := 16

/-- No two members of a list are the same. -/
def Single.Distinct (members : List Single) : Prop :=
  members.Pairwise fun a b => (b == a) = false

/-- What makes a list a set of values: several members, but not too many, and none twice. -/
structure Single.IsSet (members : List Single) : Prop where
  distinct : Single.Distinct members
  several : 2 ≤ members.length
  few : members.length ≤ Value.maxSetSize

inductive Value where
  | single (value : Single)
  /-- One of several. -/
  | set (members : List Single) {isSet : Single.IsSet members}
  | unknown
deriving DecidableEq, Repr

namespace Value

def ofPrimitive (p : Primitive) : Value := .single (.primitive p)

def ofReference (r : Reference) : Value := .single (.reference r)

def undefined : Value := ofPrimitive .undefined

def null : Value := ofPrimitive .null

def number (n : Number) : Value := ofPrimitive (.number n)

def nat (n : Nat) : Value := number (.ofNat n)

def string (s : String) : Value := ofPrimitive (.string s)

def bool (b : Bool) : Value := ofPrimitive (.bool b)

/-- The possible values, unless anything is possible. -/
def singles? : Value → Option (List Single)
  | single s => some [s]
  | set ss => some ss
  | unknown => none

/-- Adds a member to a list that has none twice, at its end. -/
def addMember (members : List Single) (s : Single) : List Single :=
  if members.contains s then members else members ++ [s]

theorem addMember_distinct {members : List Single} (s : Single)
    (h : Single.Distinct members) : Single.Distinct (addMember members s) := by
  unfold addMember
  split
  · exact h
  · rename_i hs
    refine List.pairwise_append.mpr ⟨h, List.pairwise_singleton _ _, ?_⟩
    intro a ha b hb
    rw [List.mem_singleton.mp hb]
    rw [List.contains_eq_any_beq, List.any_eq_true] at hs
    exact Bool.eq_false_iff.mpr fun hsa => hs ⟨a, ha, hsa⟩

/-- The members of a list, each at its first place only. -/
def distinct (singles : List Single) : List Single := singles.foldl addMember []

theorem distinct_distinct (singles : List Single) : Single.Distinct (distinct singles) := by
  have h (acc : List Single) (hacc : Single.Distinct acc) :
      Single.Distinct (singles.foldl addMember acc) := by
    induction singles generalizing acc with
    | nil => exact hacc
    | cons s rest ih => exact ih _ (addMember_distinct s hacc)
  exact h [] List.Pairwise.nil

/-- The least value that holds the members of a list that has none twice. -/
def ofDistinct : (members : List Single) → Single.Distinct members → Value
  | [], _ => unknown
  | [s], _ => single s
  | a :: b :: rest, h =>
    if few : (a :: b :: rest).length ≤ maxSetSize then
      @set (a :: b :: rest) ⟨h, Nat.le_add_left 2 rest.length, few⟩
    else unknown

/-- The least value that holds the given ones. None at all, and more distinct ones than a set may
have, both give `unknown`. -/
def ofSingles (singles : List Single) : Value :=
  ofDistinct (distinct singles) (distinct_distinct singles)

/-- Whether two values hold the same. The order of a set does not matter. -/
def same : Value → Value → Bool
  | single a, single b => a == b
  | set as, set bs => as.length == bs.length && as.all bs.contains
  | unknown, unknown => true
  | _, _ => false

instance : BEq Value := ⟨same⟩

/-- The least value above both. -/
def or (a b : Value) : Value :=
  match a.singles?, b.singles? with
  | some as, some bs => if a == b then a else ofSingles (as ++ bs)
  | _, _ => unknown

/-- The results of `f` on all members, joined. -/
def map (a : Value) (f : Single → Value) : Value :=
  match a.singles? with
  | none => unknown
  | some as =>
    match as.mapM fun s => (f s).singles? with
    | none => unknown
    | some results => ofSingles results.flatten

/-- The join of several values. -/
def joinAll : List Value → Value
  | [] => unknown
  | v :: rest => rest.foldl or v

/-- The results of `f` on all pairs of members, joined. -/
def product (a b : Value) (f : Single → Single → Value) : Value :=
  match b.singles? with
  | none => unknown
  | some bs => a.map fun l => joinAll (bs.map (f l))

/-- The members that satisfy `p`. -/
def filter (a : Value) (p : Single → Bool) : Value :=
  match a.singles? with
  | none => unknown
  | some as => ofSingles (as.filter p)

/-- `true` or `false` -/
def eitherBool : Value := ofSingles [.primitive (.bool true), .primitive (.bool false)]

def single? : Value → Option Single
  | single s => some s
  | _ => none

def primitive? (a : Value) : Option Primitive := a.single?.bind Single.primitive?

def reference? (a : Value) : Option Reference := a.single?.bind Single.reference?

/-- The references among the members. -/
def references (a : Value) : List Reference :=
  (a.singles?.getD []).filterMap Single.reference?

def isUnknown : Value → Bool
  | unknown => true
  | _ => false

/-- Whether all members are primitive. -/
def isPrimitive (a : Value) : Bool :=
  match a.singles? with
  | none => false
  | some as => as.all fun s => s.primitive?.isSome

/-- Whether all members are `undefined` or `null`. -/
def isNullish (a : Value) : Bool :=
  match a.singles? with
  | none => false
  | some as => as.all fun s => (s.primitive?.map Primitive.isNullish).getD false

/-- The boolean that all members convert to. -/
def truthiness (a : Value) : Option Bool :=
  match a.singles? with
  | some (s :: rest) => if rest.all (·.truthy == s.truthy) then some s.truthy else none
  | _ => none

end Value

end EsOptimizer
