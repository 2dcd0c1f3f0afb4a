import EsOptimizer.Value.Basic

/-!
# Heap objects

What is known about the objects of one reference: their prototype, their properties in the order in
which they were added, and how complete that list is. Objects are plain values, so an update gives a
new one. An object about which nothing is known is *dirty*.
-/

namespace EsOptimizer

/-- How complete the list of an object's properties is. -/
inductive Knowledge where
  /-- Any property may exist, with any value. -/
  | mayHaveNew
  /-- The listed properties are as listed, but others may exist. -/
  | noUnknownOverride
  /-- As before, and others cannot be enumerable. -/
  | noUnknownOverrideOrEnumerable
  /-- Exactly the listed properties exist. -/
  | knowsAll
deriving DecidableEq, Repr

namespace Knowledge

/-- The place in the order from least to most. -/
def rank : Knowledge → Nat
  | mayHaveNew => 0
  | noUnknownOverride => 1
  | noUnknownOverrideOrEnumerable => 2
  | knowsAll => 3

/-- The lesser of two. -/
def min (a b : Knowledge) : Knowledge := if a.rank ≤ b.rank then a else b

end Knowledge

/-- What a property holds. -/
inductive Content where
  | data (value : Value)
  | accessor (get set : Option Reference)
deriving BEq, Repr

structure Descriptor where
  enumerable : Bool := true
  writable : Bool := true
  configurable : Bool := true
  /-- Writing has effects on other properties, as for the length of an array. -/
  hiddenSetter : Bool := false
  content : Content
deriving BEq, Repr

namespace Descriptor

/-- A property made by an assignment or an object literal. -/
def data (v : Value) : Descriptor := { content := .data v }

/-- A property that is not enumerable, such as a method of a built-in object. -/
def hidden (v : Value) : Descriptor := { enumerable := false, content := .data v }

/-- A constant of a built-in object. -/
def frozen (v : Value) : Descriptor :=
  { enumerable := false, writable := false, configurable := false, content := .data v }

def accessor (get set : Option Reference) : Descriptor := { content := .accessor get set }

/-- The length of an array. -/
def arrayLength (n : Nat) : Descriptor :=
  { enumerable := false, configurable := false, hiddenSetter := true, content := .data (.nat n) }

/-- Whether two properties differ only in what they hold. -/
def sameFlags (a b : Descriptor) : Bool :=
  a.enumerable == b.enumerable && a.writable == b.writable &&
    a.configurable == b.configurable && a.hiddenSetter == b.hiddenSetter

/-- The references that a property holds. -/
def references (d : Descriptor) : List Reference :=
  match d.content with
  | .data v => v.references
  | .accessor get set => get.toList ++ set.toList

/-- What is known of a property that is as `a` or as `b` says, if that can be expressed. -/
def or? (a b : Descriptor) : Option Descriptor :=
  if !a.sameFlags b then none
  else match a.content, b.content with
    | .data x, .data y => some { a with content := .data (x.or y) }
    | .accessor _ _, _ => if a.content == b.content then some a else none
    | _, _ => none

end Descriptor

/-- Named properties, in the order in which they were added. -/
abbrev Properties := List (String × Descriptor)

namespace Properties

/-- Replaces the property of that name where it stands, or adds it at the end. -/
def insert : Properties → String → Descriptor → Properties
  | [], name, d => [(name, d)]
  | p :: rest, name, d => if p.1 == name then (name, d) :: rest else p :: insert rest name d

def erase (ps : Properties) (name : String) : Properties := ps.filter (·.1 != name)

/-- No two properties have the same name. -/
def Distinct (ps : Properties) : Prop := (ps.map (·.1)).Nodup

instance (ps : Properties) : Decidable ps.Distinct :=
  inferInstanceAs (Decidable (ps.map (·.1)).Nodup)

theorem mem_insert_names {ps : Properties} {name other : String} {d : Descriptor} :
    other ∈ (insert ps name d).map (·.1) ↔ other = name ∨ other ∈ ps.map (·.1) := by
  fun_induction insert ps name d with
  | case1 => simp
  | case2 p rest name d hp => simp [beq_iff_eq.mp hp]
  | case3 p rest name d hp ih => simp [ih, or_left_comm]

theorem Distinct.insert {ps : Properties} (h : ps.Distinct) (name : String) (d : Descriptor) :
    (Properties.insert ps name d).Distinct := by
  fun_induction Properties.insert ps name d with
  | case1 => exact List.pairwise_singleton _ _
  | case2 p rest name d hp =>
    rw [Distinct, List.map_cons, List.nodup_cons] at h ⊢
    exact beq_iff_eq.mp hp ▸ h
  | case3 p rest name d hp ih =>
    rw [Distinct, List.map_cons, List.nodup_cons] at h ⊢
    refine ⟨fun hmem => ?_, ih h.2⟩
    rcases mem_insert_names.mp hmem with heq | hmem
    · exact hp (beq_iff_eq.mpr heq)
    · exact h.1 hmem

theorem Distinct.filter {ps : Properties} (h : ps.Distinct) (p : String × Descriptor → Bool) :
    Distinct (ps.filter p) :=
  List.Pairwise.sublist (List.filter_sublist.map _) h

/-- Properties that keep their names are still distinct, also if some are left out. -/
theorem Distinct.filterMap {ps : Properties} (h : ps.Distinct)
    (f : String × Descriptor → Option Descriptor) :
    Distinct (ps.filterMap fun p => (f p).map fun d => (p.1, d)) := by
  have hsub : ((ps.filterMap fun p => (f p).map fun d => (p.1, d)).map (·.1)).Sublist
      (ps.map (·.1)) := by
    induction ps with
    | nil => exact List.Sublist.slnil
    | cons p rest ih =>
      have ih := ih (List.nodup_cons.mp h).2
      cases hp : f p with
      | none => simpa [List.filterMap_cons, hp] using ih.cons p.1
      | some d => simpa [List.filterMap_cons, hp] using ih.cons_cons p.1
  exact List.Pairwise.sublist hsub h

/-- Whether two lists hold the same properties, in whatever order. -/
def same (as bs : Properties) : Bool :=
  as.length == bs.length && as.all fun p => bs.lookup p.1 == some p.2

end Properties

structure HeapObject where
  proto : Option Reference := none
  properties : Properties := []
  knowledge : Knowledge
  /-- The built-in object that it is, as long as it is like the real one. -/
  host : Option Host := none
  /-- Nothing is known about it. -/
  dirty : Bool := false
  distinct : properties.Distinct := by exact List.Pairwise.nil
deriving Repr

namespace HeapObject

/-- Equality up to the order of the properties. -/
instance : BEq HeapObject where
  beq a b :=
    a.proto == b.proto && Properties.same a.properties b.properties && a.knowledge == b.knowledge &&
      a.host == b.host && a.dirty == b.dirty

/-- An object without properties. -/
def empty (proto : Option Reference) (knowledge : Knowledge) : HeapObject := { proto, knowledge }

/-- The object about which nothing is known. -/
def unknown : HeapObject := { knowledge := .mayHaveNew, dirty := true }

def get? (o : HeapObject) (name : String) : Option Descriptor := o.properties.lookup name

/-- Whether the object has a property of that name among its own. -/
def owns (o : HeapObject) (name : String) : Bool := (o.get? name).isSome

/-- Adds or replaces a property. -/
def insert (o : HeapObject) (name : String) (d : Descriptor) : HeapObject :=
  { o with properties := Properties.insert o.properties name d, distinct := o.distinct.insert name d }

/-- The references that an object holds, its prototype first. -/
def references (o : HeapObject) : List Reference :=
  o.proto.toList ++ o.properties.flatMap fun p => p.2.references

/-! ## Arrays -/

/-- Arrays are the objects whose length has a hidden setter. -/
def isArray (o : HeapObject) : Bool := ((o.get? "length").map (·.hiddenSetter)).getD false

/-- The length, if it is a known number. -/
def length? (o : HeapObject) : Option Nat :=
  match (o.get? "length").map Descriptor.content with
  | some (.data v) =>
    match v.primitive? with
    | some (.number n) => some (if n.isNaN || n.isNegative then 0 else n.wholePart)
    | _ => none
  | _ => none

/-- The element at an index, `undefined` in place of a hole; no answer for an accessor. -/
def element? (o : HeapObject) (i : Nat) : Option Value :=
  match (o.get? (toString i)).map Descriptor.content with
  | some (.data v) => some v
  | some (.accessor _ _) => none
  | none => some .undefined

/-- The elements of an array that is known in full. -/
def elements? (o : HeapObject) : Option (List Value) :=
  if o.dirty || !o.isArray || o.knowledge != .knowsAll then none
  else o.length?.bind fun n => (List.range n).mapM o.element?

/-- The array with other elements in place of all it had. -/
def withElements (o : HeapObject) (elems : List Value) : HeapObject :=
  let others : HeapObject :=
    { o with
      properties := o.properties.filter fun p => (arrayIndex? p.1).isNone && p.1 != "length"
      distinct := o.distinct.filter _ }
  let added := elems.zipIdx.foldl (fun o e => o.insert (toString e.2) (.data e.1)) others
  added.insert "length" (.arrayLength elems.length)

/-! ## Updates -/

/-- The object after an assignment to a property of its own. What cannot be written stays, and so
does an accessor, whose setter is for the caller to run. A new element of an array may change its
length, so nothing is known after it. -/
def withProperty (o : HeapObject) (name : String) (value : Value) : HeapObject :=
  if o.dirty then unknown
  else match o.get? name with
    | some d =>
      if !d.writable then o
      else if d.hiddenSetter then unknown
      else match d.content with
        | .accessor _ _ => o
        | .data _ => o.insert name { d with content := .data value }
    | none =>
      if o.isArray && (arrayIndex? name).isSome then unknown else o.insert name (.data value)

/-- The object after `delete`. It is then no longer the real built-in object. -/
def withoutProperty (o : HeapObject) (name : String) : HeapObject :=
  if o.dirty then unknown
  else match o.get? name with
    | some d =>
      if d.configurable then
        { o with
          properties := Properties.erase o.properties name
          host := none
          distinct := o.distinct.filter _ }
      else o
    | none => o

/-- The setter of an accessor of the object's own. -/
def setter? (o : HeapObject) (name : String) : Option (Option Reference) :=
  match (o.get? name).map Descriptor.content with
  | some (.accessor _ set) => some set
  | _ => none

/-- What is known of an object that is as `a` or as `b` says. Properties that only one of them has,
or whose flags differ, are given up, and the result no longer knows all. -/
def or (a b : HeapObject) : HeapObject :=
  if a == b then a
  else if a.dirty || b.dirty || a.proto != b.proto then unknown
  else
    let joined := a.properties.filterMap fun p =>
      ((b.get? p.1).bind p.2.or?).map fun d => (p.1, d)
    let complete := joined.length == a.properties.length && b.properties.all fun p => a.owns p.1
    { proto := a.proto
      properties := joined
      knowledge := if complete then a.knowledge.min b.knowledge else .mayHaveNew
      host := if a.host == b.host then a.host else none
      distinct := a.distinct.filterMap fun p => (b.get? p.1).bind p.2.or? }

end HeapObject

end EsOptimizer
