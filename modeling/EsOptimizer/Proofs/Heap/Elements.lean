import EsOptimizer.Analysis.Call
import EsOptimizer.Proofs.Heap.Enumeration
import EsOptimizer.Proofs.Number.Numeral

/-!
# Elements of arrays

Indices below the length of an array at which it has no property are *holes*. A method that changes
an array known in full runs on the list of its elements, in which `undefined` stands for a hole, and
the list it leaves is written back (`Track.callArray?_eq`). Writing back what was read changes an
array exactly if it has a hole (`withElements_beq_iff`).

A method therefore returns what it returns in the language, and leaves the array of the language
with its holes filled (`callElements_isArrayOf`). That is the right array if there are no holes, and
then there are none after any number of methods (`runElements_isArrayOf`).

That the lengths of arrays are among the numbers held exactly is a hypothesis (`Number.Exact`):
the conversion goes through `Float`, about which nothing can be proved.
-/

namespace EsOptimizer

/-! ## Names of indices -/

namespace Number

/-- A count that reads back from the number it is converted to. -/
structure Exact (n : Nat) : Prop where
  isNumber : (ofNat n).isNaN = false
  unsigned : (ofNat n).isNegative = false
  wholePart : (ofNat n).wholePart = n

theorem head?_toDigits {n : Nat} (h : 0 < n) : (Nat.toDigits 10 n).head? ≠ some '0' := by
  have hdigit : ∀ d < 10, 0 < d → [Nat.digitChar d].head? ≠ some '0' := by decide
  induction n using Nat.strongRecOn with
  | ind n ih =>
    by_cases hn : n < 10
    · rw [Nat.toDigits_of_lt_base hn]
      exact hdigit n hn h
    · rw [Nat.toDigits_of_base_le (by decide) (Nat.not_lt.mp hn),
        List.head?_append_of_ne_nil _ (Numeral.isRun_toDigits (n / 10)).1]
      exact ih (n / 10) (by omega) (by omega)

end Number

theorem arrayIndex?_toString {i : Nat} (h : i < Nat.pow 2 32 - 1) :
    arrayIndex? (toString i) = some i := by
  have hcs : (toString i).toList = Nat.toDigits 10 i := Nat.toList_repr
  obtain ⟨hne, hdigits⟩ := Number.Numeral.isRun_toDigits i
  have hzero :
      ((Nat.toDigits 10 i).length > 1 && (Nat.toDigits 10 i).head? == some '0') = false := by
    rcases Nat.eq_zero_or_pos i with rfl | hpos
    · decide
    · rw [beq_eq_false_iff_ne.mpr (Number.head?_toDigits hpos), Bool.and_false]
  simp only [arrayIndex?, hcs, hzero, List.isEmpty_eq_false_iff.mpr hne,
    List.all_eq_true.mpr hdigits, Number.natOfDigits_toDigits, Bool.not_true, Bool.or_self,
    Bool.false_eq_true, if_false, if_pos h]

theorem lt_of_arrayIndex? {name : String} {i : Nat} (h : arrayIndex? name = some i) :
    i < Nat.pow 2 32 - 1 := by
  unfold arrayIndex? at h
  dsimp only at h
  split at h
  · cases h
  · split at h
    · rename_i hlt
      exact Option.some.inj h ▸ hlt
    · cases h

/-- An index has one name, its numeral. -/
theorem arrayIndex?_eq_some_iff {name : String} {i : Nat} :
    arrayIndex? name = some i ↔ name = toString i ∧ i < Nat.pow 2 32 - 1 := by
  constructor
  · intro h
    have hi := lt_of_arrayIndex? h
    exact ⟨arrayIndex?_injective h (arrayIndex?_toString hi), hi⟩
  · rintro ⟨rfl, hi⟩
    exact arrayIndex?_toString hi

theorem toString_injective {i j : Nat} (h : toString i = toString j) : i = j := by
  rw [← Number.natOfDigits_toDigits i, ← Number.natOfDigits_toDigits j, ← Nat.toList_repr,
    ← Nat.toList_repr]
  exact congrArg (fun name => Number.natOfDigits name.toList) h

theorem toString_ne_length (i : Nat) : toString i ≠ "length" := by
  intro h
  have hdigits := (Number.Numeral.isRun_toDigits i).2 'l'
  rw [← Nat.toList_repr, ← Nat.toString_eq_repr, h] at hdigits
  exact absurd (hdigits (by decide)) (by decide)

/-! ## Arrays of the language -/

/-- An array of the language: its length, and values at some of the indices below it. -/
structure SparseArray where
  length : Nat
  held : Nat → Option Value
  beyond : ∀ i, length ≤ i → held i = none

namespace SparseArray

variable {a b : SparseArray}

@[ext] theorem ext (hlength : a.length = b.length) (hheld : ∀ i, a.held i = b.held i) : a = b := by
  obtain ⟨n, f, hf⟩ := a
  obtain ⟨m, g, hg⟩ := b
  obtain rfl : n = m := hlength
  obtain rfl : f = g := funext hheld
  rfl

/-- No index below the length is a hole. -/
def Dense (a : SparseArray) : Prop := ∀ i, i < a.length → ∃ v, a.held i = some v

/-- The array with those elements. -/
def ofList (vs : List Value) : SparseArray where
  length := vs.length
  held i := vs[i]?
  beyond _ h := List.getElem?_eq_none h

/-- The array with `undefined` in place of the holes. -/
def filled (a : SparseArray) : SparseArray where
  length := a.length
  held i := if i < a.length then some ((a.held i).getD .undefined) else none
  beyond _ h := if_neg (Nat.not_lt.mpr h)

def push (a : SparseArray) (args : List Value) : SparseArray where
  length := a.length + args.length
  held i := if i < a.length then a.held i else args[i - a.length]?
  beyond i h := by
    rw [if_neg (by omega)]
    exact List.getElem?_eq_none (by omega)

def pop (a : SparseArray) : SparseArray where
  length := a.length - 1
  held i := if i < a.length - 1 then a.held i else none
  beyond _ h := if_neg (Nat.not_lt.mpr h)

/-- Holes change places like values. -/
def reverse (a : SparseArray) : SparseArray where
  length := a.length
  held i := if i < a.length then a.held (a.length - 1 - i) else none
  beyond _ h := if_neg (Nat.not_lt.mpr h)

/-- What the methods that change an array make of it, and what they return. That an array gets too
long is an error. -/
def call (f : Native) (args : List Value) (a : SparseArray) :
    Option (SparseArray × Native.ArrayResult) :=
  match f with
  | .arrayPush =>
    if a.length + args.length < Nat.pow 2 32 then
      some (a.push args, .value (.nat (a.length + args.length)))
    else none
  | .arrayPop => some (a.pop, .value ((a.held (a.length - 1)).getD .undefined))
  | .arrayReverse => some (a.reverse, .this)
  | _ => none

/-- What several methods, one after the other, make of it. -/
def run (calls : List (Native × List Value)) (a : SparseArray) : Option SparseArray :=
  calls.foldlM (fun a c => (a.call c.1 c.2).map Prod.fst) a

theorem filled_eq_iff : a.filled = a ↔ a.Dense := by
  constructor
  · intro h i hi
    have hheld := congrArg (fun c => c.held i) h
    exact ⟨_, hheld.symm.trans (if_pos hi)⟩
  · intro h
    refine ext rfl fun i => ?_
    change (if i < a.length then _ else none) = _
    split
    · rename_i hi
      obtain ⟨v, hv⟩ := h i hi
      rw [hv, Option.getD_some]
    · rename_i hi
      exact (a.beyond i (Nat.not_lt.mp hi)).symm

theorem dense_filled (a : SparseArray) : a.filled.Dense := fun _ hi => ⟨_, if_pos hi⟩

theorem held_filled (a : SparseArray) (i : Nat) :
    a.filled.held i = if i < a.length then some ((a.held i).getD .undefined) else none := rfl

/-! ### The methods and the holes -/

theorem push_filled (a : SparseArray) (args : List Value) :
    a.filled.push args = (a.push args).filled := by
  refine ext rfl fun i => ?_
  change (if i < a.length then a.filled.held i else args[i - a.length]?) =
    if i < a.length + args.length then
      some ((if i < a.length then a.held i else args[i - a.length]?).getD .undefined)
    else none
  by_cases hi : i < a.length
  · simp only [if_pos hi, held_filled, if_pos (Nat.lt_add_right args.length hi)]
  · by_cases hargs : i - a.length < args.length
    · rw [if_neg hi, if_neg hi, if_pos (by omega), List.getElem?_eq_getElem hargs, Option.getD_some]
    · rw [if_neg hi, if_neg (by omega), List.getElem?_eq_none (Nat.not_lt.mp hargs)]

theorem pop_filled (a : SparseArray) : a.filled.pop = a.pop.filled := by
  refine ext rfl fun i => ?_
  change (if i < a.length - 1 then a.filled.held i else none) =
    if i < a.length - 1 then some ((if i < a.length - 1 then a.held i else none).getD .undefined)
    else none
  split
  · rw [held_filled, if_pos (by omega)]
  · rfl

theorem reverse_filled (a : SparseArray) : a.filled.reverse = a.reverse.filled := by
  refine ext rfl fun i => ?_
  change (if i < a.length then a.filled.held (a.length - 1 - i) else none) =
    if i < a.length then
      some ((if i < a.length then a.held (a.length - 1 - i) else none).getD .undefined)
    else none
  split
  · rw [held_filled, if_pos (by omega)]
  · rfl

theorem getD_held_filled (a : SparseArray) (i : Nat) :
    (a.filled.held i).getD .undefined = (a.held i).getD .undefined := by
  rw [held_filled]
  split
  · rfl
  · rename_i hi
    rw [a.beyond i (Nat.not_lt.mp hi)]

/-- A method does not tell holes from `undefined`: with them filled first, it gives the same result,
and the same array with its holes filled. -/
theorem call_filled (f : Native) (args : List Value) (a : SparseArray) :
    a.filled.call f args = (a.call f args).map fun r => (r.1.filled, r.2) := by
  unfold call
  split
  · change (if a.length + args.length < _ then some (a.filled.push args, _) else none) = _
    rw [push_filled]
    split <;> rfl
  · rw [pop_filled, getD_held_filled]
    rfl
  · rw [reverse_filled]
    rfl
  · rfl

theorem Dense.call (ha : a.Dense) {f : Native} {args : List Value} {r : Native.ArrayResult}
    (h : a.call f args = some (b, r)) : b.Dense := by
  have hfilled := call_filled f args a
  rw [filled_eq_iff.mpr ha, h, Option.map_some, Option.some.injEq, Prod.mk.injEq] at hfilled
  exact hfilled.1 ▸ dense_filled b

theorem length_call (hshort : a.length < Nat.pow 2 32) {f : Native} {args : List Value}
    {r : Native.ArrayResult} (h : a.call f args = some (b, r)) : b.length < Nat.pow 2 32 := by
  unfold SparseArray.call at h
  split at h
  · split at h
    · obtain ⟨rfl, -⟩ := Prod.mk.inj (Option.some.inj h)
      assumption
    · cases h
  · obtain ⟨rfl, -⟩ := Prod.mk.inj (Option.some.inj h)
    exact Nat.lt_of_le_of_lt (Nat.sub_le a.length 1) hshort
  · obtain ⟨rfl, -⟩ := Prod.mk.inj (Option.some.inj h)
    exact hshort
  · cases h

/-! ### The methods on lists -/

theorem ofList_append (vs args : List Value) : ofList (vs ++ args) = (ofList vs).push args := by
  refine ext List.length_append fun i => ?_
  exact List.getElem?_append

theorem ofList_dropLast (vs : List Value) : ofList vs.dropLast = (ofList vs).pop :=
  ext List.length_dropLast fun _ => List.getElem?_dropLast

theorem ofList_reverse (vs : List Value) : ofList vs.reverse = (ofList vs).reverse := by
  refine ext List.length_reverse fun i => ?_
  change vs.reverse[i]? = if i < vs.length then vs[vs.length - 1 - i]? else none
  split
  · rename_i hi
    exact List.getElem?_reverse hi
  · rename_i hi
    exact List.getElem?_eq_none (by rw [List.length_reverse]; exact Nat.not_lt.mp hi)

theorem callArray_ofList {f : Native} {vs args : List Value} {r : Native.ArrayResult}
    (h : (ofList vs).call f args = some (b, r)) :
    ∃ ws, f.callArray vs args = some (ws, r) ∧ ofList ws = b := by
  unfold call at h
  split at h
  · split at h
    · obtain ⟨rfl, rfl⟩ := Prod.mk.inj (Option.some.inj h)
      exact ⟨vs ++ args, by simp [Native.callArray, ofList], ofList_append vs args⟩
    · cases h
  · obtain ⟨rfl, rfl⟩ := Prod.mk.inj (Option.some.inj h)
    refine ⟨vs.dropLast, ?_, ofList_dropLast vs⟩
    rw [Native.callArray, List.getLast?_eq_getElem?]
    rfl
  · obtain ⟨rfl, rfl⟩ := Prod.mk.inj (Option.some.inj h)
    exact ⟨vs.reverse, rfl, ofList_reverse vs⟩
  · cases h

end SparseArray

/-! ## Objects that are arrays -/

namespace Properties

theorem lookup_insert (ps : Properties) (name other : String) (d : Descriptor) :
    (Properties.insert ps name d).lookup other =
      if other = name then some d else ps.lookup other := by
  fun_induction Properties.insert ps name d with
  | case1 name d =>
    rw [List.lookup_cons]
    by_cases h : other = name
    · simp [h]
    · simp [h, beq_eq_false_iff_ne.mpr h]
  | case2 p rest name d hp =>
    rw [List.lookup_cons, List.lookup_cons, ← beq_iff_eq.mp hp]
    by_cases h : other = p.1
    · simp [h]
    · simp [h, beq_eq_false_iff_ne.mpr h]
  | case3 p rest name d hp ih =>
    rw [List.lookup_cons, List.lookup_cons, ih]
    by_cases h : other = p.1
    · have hne : p.1 ≠ name := fun heq => hp (beq_iff_eq.mpr heq)
      simp [h, hne]
    · simp [beq_eq_false_iff_ne.mpr h]

theorem lookup_filter (ps : Properties) (keep : String → Bool) (name : String) :
    (ps.filter fun p => keep p.1).lookup name = if keep name then ps.lookup name else none := by
  induction ps with
  | nil => exact (ite_self none).symm
  | cons p rest ih =>
    rw [List.filter_cons, List.lookup_cons]
    by_cases hname : name = p.1
    · subst hname
      split
      · rw [List.lookup_cons, beq_self_eq_true]
      · rename_i hkeep
        rw [ih, if_neg hkeep]
    · rw [beq_eq_false_iff_ne.mpr hname]
      split
      · rw [List.lookup_cons, beq_eq_false_iff_ne.mpr hname]
        exact ih
      · exact ih

end Properties

namespace HeapObject

variable {o : HeapObject} {a b : SparseArray}

theorem get?_insert (o : HeapObject) (name other : String) (d : Descriptor) :
    (o.insert name d).get? other = if other = name then some d else o.get? other :=
  Properties.lookup_insert o.properties name other d

/-- The object is known in full, and it is that array: its length, and the elements, are as array
literals, assignments and methods make them. It may have other properties. -/
structure IsArrayOf (o : HeapObject) (a : SparseArray) : Prop where
  clean : o.dirty = false
  complete : o.knowledge = .knowsAll
  short : a.length < Nat.pow 2 32
  length : o.get? "length" = some (.arrayLength a.length)
  elements : ∀ i, i < Nat.pow 2 32 - 1 → o.get? (toString i) = (a.held i).map .data

/-! ### Reading the elements -/

theorem IsArrayOf.length? (h : o.IsArrayOf a) (hexact : Number.Exact a.length) :
    o.length? = some a.length := by
  have hprimitive : (Value.nat a.length).primitive? = some (.number (.ofNat a.length)) := rfl
  simp only [HeapObject.length?, h.length, Option.map_some, Descriptor.arrayLength, hprimitive,
    hexact.isNumber, hexact.unsigned, hexact.wholePart, Bool.or_self, Bool.false_eq_true, if_false]

theorem IsArrayOf.element? (h : o.IsArrayOf a) {i : Nat} (hi : i < a.length) :
    o.element? i = some ((a.held i).getD .undefined) := by
  have hshort := h.short
  rw [HeapObject.element?, h.elements i (by omega)]
  cases a.held i <;> rfl

/-- Holes are read as `undefined`. -/
theorem IsArrayOf.elements? (h : o.IsArrayOf a) (hexact : Number.Exact a.length) :
    ∃ vs, o.elements? = some vs ∧ SparseArray.ofList vs = a.filled := by
  have hmapM (is : List Nat) (his : ∀ i ∈ is, i < a.length) :
      is.mapM o.element? = some (is.map fun i => (a.held i).getD .undefined) := by
    induction is with
    | nil => rfl
    | cons i is ih =>
      rw [List.mapM_cons, h.element? (his i List.mem_cons_self),
        ih fun j hj => his j (List.mem_cons_of_mem i hj)]
      rfl
  have harray : o.isArray = true := by
    rw [isArray, h.length]
    rfl
  refine ⟨(List.range a.length).map fun i => (a.held i).getD .undefined, ?_, ?_⟩
  · simp only [HeapObject.elements?, h.clean, harray, h.complete, h.length? hexact,
      bne_self_eq_false, Bool.not_true, Bool.or_self, Bool.false_eq_true, if_false,
      Option.bind_some]
    exact hmapM _ fun i hi => List.mem_range.mp hi
  · refine SparseArray.ext ((List.length_map _).trans List.length_range) fun i => ?_
    change ((List.range a.length).map _)[i]? = _
    rw [SparseArray.held_filled, List.getElem?_map]
    split
    · rename_i hi
      rw [List.getElem?_range hi, Option.map_some]
    · rename_i hi
      rw [List.getElem?_eq_none (by rwa [List.length_range, ← Nat.not_lt]), Option.map_none]

/-! ### Writing them back -/

/-- The object after its elements from the index `k` on have been added. -/
def addElements (o : HeapObject) (vs : List Value) (k : Nat) : HeapObject :=
  (vs.zipIdx k).foldl (fun o e => o.insert (toString e.2) (.data e.1)) o

theorem addElements_cons (o : HeapObject) (v : Value) (vs : List Value) (k : Nat) :
    o.addElements (v :: vs) k = (o.insert (toString k) (.data v)).addElements vs (k + 1) := rfl

theorem addElements_keeps (o : HeapObject) (vs : List Value) (k : Nat) :
    (o.addElements vs k).proto = o.proto ∧ (o.addElements vs k).knowledge = o.knowledge ∧
      (o.addElements vs k).host = o.host ∧ (o.addElements vs k).dirty = o.dirty := by
  induction vs generalizing k o with
  | nil => exact ⟨rfl, rfl, rfl, rfl⟩
  | cons v vs ih => exact ih (o.insert (toString k) (.data v)) (k + 1)

theorem get?_addElements_of_ne {name : String} {vs : List Value} {k : Nat}
    (h : ∀ j < vs.length, name ≠ toString (k + j)) (o : HeapObject) :
    (o.addElements vs k).get? name = o.get? name := by
  induction vs generalizing k o with
  | nil => rfl
  | cons v vs ih =>
    have hrest (j : Nat) (hj : j < vs.length) : name ≠ toString (k + 1 + j) := by
      rw [Nat.add_right_comm]
      exact h (j + 1) (Nat.succ_lt_succ hj)
    have hfirst : name ≠ toString k := h 0 (Nat.succ_pos _)
    rw [addElements_cons, ih hrest, get?_insert, if_neg hfirst]

theorem get?_addElements {vs : List Value} {j : Nat} {v : Value} (h : vs[j]? = some v) (k : Nat)
    (o : HeapObject) : (o.addElements vs k).get? (toString (k + j)) = some (.data v) := by
  induction vs generalizing k o j with
  | nil => cases h
  | cons w vs ih =>
    rw [addElements_cons]
    cases j with
    | zero =>
      change ((o.insert (toString k) (.data w)).addElements vs (k + 1)).get? (toString k) = _
      rw [get?_addElements_of_ne, get?_insert, if_pos rfl, Option.some.inj h]
      -- the elements behind have other names
      intro j _ heq
      have hkj : k = k + 1 + j := toString_injective heq
      omega
    | succ j =>
      have hj := ih h (k + 1) (o.insert (toString k) (.data w))
      rwa [Nat.add_right_comm] at hj

/-- Whether a property is neither an element nor the length. -/
def isNamed (p : String × Descriptor) : Bool := (arrayIndex? p.1).isNone && p.1 != "length"

/-- The properties that are neither elements nor the length. -/
def withoutElements (o : HeapObject) : HeapObject :=
  { o with
    properties := o.properties.filter isNamed
    distinct := o.distinct.filter _ }

theorem withElements_eq (o : HeapObject) (vs : List Value) :
    o.withElements vs =
      (o.withoutElements.addElements vs 0).insert "length" (.arrayLength vs.length) := rfl

theorem get?_withoutElements (o : HeapObject) (name : String) : o.withoutElements.get? name =
    if (arrayIndex? name).isNone && name != "length" then o.get? name else none :=
  Properties.lookup_filter o.properties (fun name => (arrayIndex? name).isNone && name != "length")
    name

theorem withElements_keeps (o : HeapObject) (vs : List Value) :
    (o.withElements vs).proto = o.proto ∧ (o.withElements vs).knowledge = o.knowledge ∧
      (o.withElements vs).host = o.host ∧ (o.withElements vs).dirty = o.dirty :=
  o.withoutElements.addElements_keeps vs 0

theorem Withheld.withElements {o : HeapObject} {host : Host} (h : o.Withheld host)
    (vs : List Value) : (o.withElements vs).Withheld host := by
  obtain ⟨-, -, hhost, hdirty⟩ := o.withElements_keeps vs
  rw [Withheld, hhost, hdirty]
  exact h

theorem get?_withElements_length (o : HeapObject) (vs : List Value) :
    (o.withElements vs).get? "length" = some (.arrayLength vs.length) := by
  rw [withElements_eq, get?_insert, if_pos rfl]

theorem get?_withElements_index (o : HeapObject) (vs : List Value) {i : Nat}
    (hi : i < Nat.pow 2 32 - 1) : (o.withElements vs).get? (toString i) = vs[i]?.map .data := by
  rw [withElements_eq, get?_insert, if_neg (toString_ne_length i)]
  cases hv : vs[i]? with
  | some v =>
    have hadded := get?_addElements hv 0 o.withoutElements
    rwa [Nat.zero_add] at hadded
  | none =>
    rw [get?_addElements_of_ne, get?_withoutElements, arrayIndex?_toString hi]
    · rfl
    · intro j hj heq
      have hij : i = 0 + j := toString_injective heq
      rw [List.getElem?_eq_none_iff] at hv
      omega

/-- What is neither an element nor the length is as before. -/
theorem get?_withElements_of_isNone (o : HeapObject) {vs : List Value}
    (hshort : vs.length < Nat.pow 2 32) {name : String} (hindex : arrayIndex? name = none)
    (hlength : name ≠ "length") : (o.withElements vs).get? name = o.get? name := by
  rw [withElements_eq, get?_insert, if_neg hlength, get?_addElements_of_ne, get?_withoutElements,
    hindex, bne_iff_ne.mpr hlength]
  · rfl
  · rintro j hj rfl
    rw [arrayIndex?_toString (by omega)] at hindex
    cases hindex

theorem IsArrayOf.withElements (h : o.IsArrayOf a) {vs : List Value}
    (hshort : vs.length < Nat.pow 2 32) : (o.withElements vs).IsArrayOf (.ofList vs) where
  clean := (withElements_keeps o vs).2.2.2.trans h.clean
  complete := (withElements_keeps o vs).2.1.trans h.complete
  short := hshort
  length := get?_withElements_length o vs
  elements _ hi := get?_withElements_index o vs hi

/-- Writing back what was read changes an array exactly if it has a hole. -/
theorem withElements_beq_iff (h : o.IsArrayOf a) (hexact : Number.Exact a.length) {vs : List Value}
    (hvs : o.elements? = some vs) : (o.withElements vs == o) = true ↔ a.Dense := by
  obtain ⟨ws, hws, hfilled⟩ := h.elements? hexact
  obtain rfl : vs = ws := Option.some.inj (hvs.symm.trans hws)
  have hlength : vs.length = a.length := congrArg SparseArray.length hfilled
  have hheld (i : Nat) : vs[i]? = a.filled.held i := congrArg (fun c => c.held i) hfilled
  have hshort := h.short
  rw [← SparseArray.filled_eq_iff, beq_iff]
  constructor
  · rintro ⟨-, hget, -⟩
    refine SparseArray.ext rfl fun i => ?_
    by_cases hi : i < a.length
    · have hname := hget (toString i)
      rw [get?_withElements_index o vs (by omega), h.elements i (by omega), hheld] at hname
      rw [SparseArray.held_filled, if_pos hi] at hname ⊢
      cases hv : a.held i with
      | none =>
        rw [hv] at hname
        cases hname
      | some v => rfl
    · rw [a.filled.beyond i (Nat.not_lt.mp hi), a.beyond i (Nat.not_lt.mp hi)]
  · intro hdense
    obtain ⟨hproto, hknowledge, hhost, hdirty⟩ := withElements_keeps o vs
    refine ⟨hproto, fun name => ?_, hknowledge, hhost, hdirty⟩
    suffices o.get? name = (o.withElements vs).get? name by
      rw [this]
      exact BEq.rfl
    cases hindex : arrayIndex? name with
    | some i =>
      obtain ⟨rfl, hi⟩ := arrayIndex?_eq_some_iff.mp hindex
      rw [get?_withElements_index o vs hi, h.elements i hi, hheld, hdense]
    | none =>
      by_cases hname : name = "length"
      · rw [hname, get?_withElements_length, h.length, hlength]
      · rw [get?_withElements_of_isNone o (hlength ▸ hshort) hindex hname]

/-! ### The methods -/

/-- An array known in full after a method that changes it, and what the method returns. -/
def callElements (f : Native) (args : List Value) (o : HeapObject) :
    Option (HeapObject × Native.ArrayResult) := do
  let vs ← o.elements?
  let (ws, r) ← f.callArray vs args
  return (o.withElements ws, r)

/-- The result of a method is that of the language. The array after it is that of the language with
its holes filled. -/
theorem callElements_isArrayOf (h : o.IsArrayOf a) (hexact : Number.Exact a.length) {f : Native}
    {args : List Value} {r : Native.ArrayResult} (hcall : a.call f args = some (b, r)) :
    ∃ o', o.callElements f args = some (o', r) ∧ o'.IsArrayOf b.filled := by
  obtain ⟨vs, hvs, hfilled⟩ := h.elements? hexact
  have hcall' : (SparseArray.ofList vs).call f args = some (b.filled, r) := by
    rw [hfilled, SparseArray.call_filled, hcall, Option.map_some]
  obtain ⟨ws, hws, hb⟩ := SparseArray.callArray_ofList hcall'
  have hlength : ws.length = b.length := congrArg SparseArray.length hb
  have hshort := SparseArray.length_call h.short hcall
  refine ⟨o.withElements ws, ?_, hb ▸ h.withElements (hlength ▸ hshort)⟩
  rw [callElements, hvs, Option.bind_eq_bind, Option.bind_some, hws]
  rfl

/-- An array known in full after several methods. -/
def runElements (calls : List (Native × List Value)) (o : HeapObject) : Option HeapObject :=
  calls.foldlM (fun o c => (o.callElements c.1 c.2).map Prod.fst) o

/-- An array without holes is that of the language after any number of methods. -/
theorem runElements_isArrayOf (hexact : ∀ n, n < Nat.pow 2 32 → Number.Exact n)
    {calls : List (Native × List Value)} (h : o.IsArrayOf a) (hdense : a.Dense)
    (hrun : a.run calls = some b) :
    ∃ o', o.runElements calls = some o' ∧ o'.IsArrayOf b ∧ b.Dense := by
  induction calls generalizing o a with
  | nil => exact ⟨o, rfl, Option.some.inj hrun ▸ h, Option.some.inj hrun ▸ hdense⟩
  | cons c calls ih =>
    obtain ⟨c', hfirst, hrest⟩ := Option.bind_eq_some_iff.mp hrun
    obtain ⟨⟨a', r⟩, hcall, rfl⟩ := Option.map_eq_some_iff.mp hfirst
    have hdense' := hdense.call hcall
    obtain ⟨o', ho', harray⟩ := callElements_isArrayOf h (hexact a.length h.short) hcall
    rw [SparseArray.filled_eq_iff.mpr hdense'] at harray
    obtain ⟨o'', ho'', hb⟩ := ih harray hdense' hrest
    refine ⟨o'', ?_, hb⟩
    rw [runElements, List.foldlM_cons, ho']
    exact ho''

end HeapObject

/-- A method that changes its receiver is run on the elements, and the array is what they become. -/
theorem Track.callArray?_eq {f : Native} (hf : f.effect = .mutatesReceiver) (this : Value)
    (args : List Value) : callArray? f this args = (do
      let some r := this.reference? | return none
      match (← deref r).callElements f args with
      | none => return none
      | some (o, result) =>
        updateObject r o
        return some ⟨match result with | .value v => v | .this => .ofReference r, false⟩) := by
  unfold callArray?
  cases this.reference? with
  | none => rfl
  | some r =>
    refine bind_congr fun o => ?_
    rw [HeapObject.callElements]
    cases o.elements? with
    | none => rfl
    | some vs =>
      simp only [Option.bind_some, Option.bind_eq_bind]
      cases f.callArray vs args with
      | none => rfl
      | some w =>
        obtain ⟨ws, result⟩ := w
        cases result <;> simp [hf]

end EsOptimizer
