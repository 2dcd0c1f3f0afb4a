import EsOptimizer.Proofs.Flow.Merge
import EsOptimizer.Proofs.Heap.Lattice

/-!
# Merging, object by object

What each of the four merges makes of the version of an object, in the same way as for variables:

- `mergeBack_object`: the child's version, if it has one;
- `mergeLive_object`: the join of what both children have;
- `mergeMaybe_object`: the join of what was there and what the child has;
- `mergeUnsure_object`: the join of what was there and all that was put, unless that changes
  nothing.

An object that does not exist on one side has the version of the other (`joinVersion`). Variables do
not influence objects: `SameObjects` says that two states differ at most in the former. All that a
merge does to what was written is to add what the children wrote (`SameFrame`).
-/

namespace EsOptimizer

/-! ## Order of references -/

instance : Std.TransOrd Reference :=
  inferInstanceAs (Std.TransCmp (compareLex (compareOn Reference.tier) (compareOn Reference.rank)))

theorem Native.ctorIdx_lt (f : Native) : f.ctorIdx < Native.count := by cases f <;> decide

theorem Native.ctorIdx_injective {f g : Native} (h : f.ctorIdx = g.ctorIdx) : f = g := by
  rw [← Native.ofNat_ctorIdx f, h, Native.ofNat_ctorIdx]

/-- The functions stand between `console` and the prototype of functions, each at its own place. -/
theorem Host.rank_injective {a b : Host} (h : a.rank = b.rank) : a = b := by
  cases a with
  | function f =>
    have hf := f.ctorIdx_lt
    cases b with
    | function g => rw [Native.ctorIdx_injective (Nat.add_left_cancel h)]
    | _ => simp only [Host.rank] at h; omega
  | _ =>
    cases b with
    | function g =>
      have hg := g.ctorIdx_lt
      simp only [Host.rank] at h
      omega
    | _ => first | rfl | (simp only [Host.rank] at h; omega)

theorem Allocation.rank_lt (k : Allocation) : k.rank < 5 := by cases k <;> decide

theorem Allocation.rank_injective {a b : Allocation} (h : a.rank = b.rank) : a = b := by
  cases a <;> cases b <;> first | rfl | cases h

instance : Std.LawfulEqOrd Reference where
  compare_self := Std.ReflCmp.compare_self
  eq_of_compare {a b} h := by
    obtain ⟨htier, hrank⟩ := compareLex_eq_eq.mp h
    have htier : a.tier = b.tier := Std.LawfulEqCmp.eq_of_compare htier
    have hrank : a.rank = b.rank := Std.LawfulEqCmp.eq_of_compare hrank
    cases a with
    | node id kind =>
      cases b with
      | host h => cases htier
      | node id' kind' =>
        simp only [Reference.rank] at hrank
        have hlt := kind.rank_lt
        have hlt' := kind'.rank_lt
        have hid : @Eq Nat id id' := by omega
        subst hid
        rw [Allocation.rank_injective (show kind.rank = kind'.rank by omega)]
    | host h =>
      cases b with
      | node id kind => cases htier
      | host h' => rw [Host.rank_injective hrank]

/-! ## What was written -/

/-- Every version of `a` is still there in `b`, or a greater one. -/
def Objects.Below (a b : Objects) : Prop := GrowsBy HeapObject.Below a b

namespace Objects

theorem Below.refl (a : Objects) : Below a a := GrowsBy.refl HeapObject.Below.refl a

theorem Below.trans {a b c : Objects} (hab : Below a b) (hbc : Below b c) : Below a c :=
  GrowsBy.trans (R := HeapObject.Below) (fun _ _ _ => HeapObject.Below.trans) hab hbc

theorem getElem?_insert_ref {m : Objects} {r q : Reference} {o : HeapObject} :
    (m.insert r o)[q]? = if r = q then some o else m[q]? :=
  getElem?_insert_of_key

theorem mem_toList {m : Objects} {r : Reference} {o : HeapObject} :
    (r, o) ∈ m.toList ↔ m[r]? = some o :=
  Std.TreeMap.mem_toList_iff_getElem?_eq_some

end Objects

namespace Written

@[simp] theorem addValue_heap (w : Written) (v : VarId) (x : Value) :
    (w.addValue v x).1.heap = w.heap := by
  unfold addValue
  split <;> rfl

@[simp] theorem addReach_heap (w : Written) (v : VarId) (refs : RefSet) :
    (w.addReach v refs).1.heap = w.heap := rfl

theorem addObject_heap (w : Written) (r : Reference) (o : HeapObject) :
    Objects.Below w.heap (w.addObject r o).1.heap ∧
      ∃ p, (w.addObject r o).1.heap[r]? = some p ∧ o.Below p := by
  unfold addObject
  split
  · rename_i h
    refine ⟨GrowsBy.insert HeapObject.Below.refl fun old hold => ?_, o, ?_, HeapObject.Below.refl o⟩
    · rw [h] at hold
      cases hold
    · exact Objects.getElem?_insert_ref.trans (if_pos rfl)
  · rename_i old h
    refine ⟨GrowsBy.insert HeapObject.Below.refl fun p hp => ?_, old.or o, ?_,
      HeapObject.below_or_right old o⟩
    · rw [h] at hp
      cases hp
      exact HeapObject.below_or_left old o
    · exact Objects.getElem?_insert_ref.trans (if_pos rfl)

/-- What was put as an object is joined with what is put. -/
theorem addObject_at (w : Written) (r q : Reference) (o : HeapObject) :
    (w.addObject r o).1.heap[q]? =
      if r = q then Option.merge HeapObject.or w.heap[q]? (some o) else w.heap[q]? := by
  unfold addObject
  split <;> rename_i h <;> rw [Objects.getElem?_insert_ref] <;> split
  · rename_i hrq
    rw [← hrq, h]
    rfl
  · rfl
  · rename_i hrq
    rw [← hrq, h]
    rfl
  · rfl

/-- Of an object, the union holds the join of what both unions held. -/
theorem absorb_heap_at (w other : Written) (r : Reference) :
    (w.absorb other).1.heap[r]? = Option.merge HeapObject.or w.heap[r]? other.heap[r]? := by
  unfold absorb
  simp only
  rw [addAll_keeps Written.heap (fun w (e : VarId × RefSet) => addReach_heap w e.1 e.2), addAll_fst,
    foldl_toList_at (fun (w : Written) r => w.heap[r]?) other.heap
      (F := fun _ o known => Option.merge HeapObject.or known (some o))
      (fun w e q => addObject_at w e.1 q e.2),
    addAll_keeps Written.heap (fun w (e : VarId × Value) => addValue_heap w e.1 e.2)]
  cases other.heap[r]? with
  | none => exact Option.merge_none_right.symm
  | some o => rfl

theorem absorb_heap (w other : Written) :
    Objects.Below w.heap (w.absorb other).1.heap ∧
      Objects.Below other.heap (w.absorb other).1.heap :=
  GrowsBy.of_merge HeapObject.below_or_left HeapObject.below_or_right HeapObject.Below.refl
    (absorb_heap_at w other)

end Written

/-! ## Reading objects -/

/-- The join of two versions, each of which may be missing. -/
def joinVersion : Option HeapObject → Option HeapObject → Option HeapObject
  | some a, some b => some (a.or b)
  | some o, none | none, some o => some o
  | none, none => none

namespace State

open Escaping

theorem object?_eq (s : State) (r : Reference) : s.object? r = s.top.heap[r]?.or
    (if s.top.boundsObject r then some .unknown
      else match Layer.objectIn r s.below with
        | .found o => some o
        | .changing => some .unknown
        | .missing => r.initialObject?) := by
  unfold object? lookupObject layers
  rw [Layer.objectIn]
  cases s.top.heap[r]? with
  | some o => rfl
  | none =>
    by_cases hb : s.top.boundsObject r
    · simp [hb]
    · rw [if_neg hb, if_neg hb]
      cases Layer.objectIn r s.below <;> rfl

/-- The states differ at most in what the top layer knows, apart from what was written. -/
structure SameFrame (s t : State) : Prop where
  below : t.below = s.below
  boundary : t.top.boundary = s.top.boundary
  written : t.top.written = s.top.written

/-- The states differ at most in the values of variables and in what they reach. -/
structure SameObjects (s t : State) : Prop extends SameFrame s t where
  heap : t.top.heap = s.top.heap

theorem SameFrame.refl (s : State) : SameFrame s s := ⟨rfl, rfl, rfl⟩

theorem SameFrame.trans {s t u : State} (hst : SameFrame s t) (htu : SameFrame t u) :
    SameFrame s u :=
  ⟨htu.below.trans hst.below, htu.boundary.trans hst.boundary, htu.written.trans hst.written⟩

namespace SameObjects

theorem refl (s : State) : SameObjects s s := ⟨SameFrame.refl s, rfl⟩

theorem trans {s t u : State} (hst : SameObjects s t) (htu : SameObjects t u) : SameObjects s u :=
  ⟨hst.toSameFrame.trans htu.toSameFrame, htu.heap.trans hst.heap⟩

theorem object? {s t : State} (h : SameObjects s t) (r : Reference) : t.object? r = s.object? r := by
  rw [object?_eq, object?_eq, h.heap, h.below, Layer.boundsObject, Layer.boundsObject, h.boundary]

theorem foldl {α : Type} {f : State → α → State} (h : ∀ s a, SameObjects s (f s a))
    (items : List α) (s : State) : SameObjects s (items.foldl f s) := by
  induction items generalizing s with
  | nil => exact refl s
  | cons a rest ih => exact (h s a).trans (ih _)

end SameObjects

theorem SameFrame.foldl {α : Type} {f : State → α → State} (h : ∀ s a, SameFrame s (f s a))
    (items : List α) (s : State) : SameFrame s (items.foldl f s) := by
  induction items generalizing s with
  | nil => exact refl s
  | cons a rest ih => exact (h s a).trans (ih _)

theorem object?_child (s : State) (r : Reference) : s.child.object? r = s.object? r := by
  simp [State.object?, lookupObject, child, layers, Layer.objectIn, Layer.boundsObject]

theorem object?_withLayer {s : State} {delta : Layer} (h : delta.boundary = none) (r : Reference) :
    (s.withLayer delta).object? r = delta.heap[r]?.or (s.object? r) := by
  rw [object?_eq, withLayer, Layer.boundsObject, h]
  rfl

/-! ## Steps -/

theorem putValue_sameObjects (s : State) (v : VarId) (x : Value) : SameObjects s (s.putValue v x) :=
  ⟨⟨rfl, rfl, rfl⟩, rfl⟩

theorem putReach_sameObjects (s : State) (v : VarId) (refs : RefSet) :
    SameObjects s (s.putReach v refs) := ⟨⟨rfl, rfl, rfl⟩, rfl⟩

theorem putVersion_sameFrame (s : State) (r : Reference) (o : HeapObject) :
    SameFrame s (s.putVersion r o) := ⟨rfl, rfl, rfl⟩

@[simp] theorem putVersion_object (s : State) (r q : Reference) (o : HeapObject) :
    (s.putVersion r o).object? q = if r = q then some o else s.object? q := by
  rw [object?_eq, object?_eq]
  change ((s.top.heap.insert r o)[q]?).or _ = _
  rw [Objects.getElem?_insert_ref]
  split <;> rfl

@[simp] theorem putObject_object (s : State) (r q : Reference) (o : HeapObject) :
    (s.putObject r o).object? q = if r = q then some o else s.object? q :=
  putVersion_object s r q o

theorem setValue_object (s : State) (v : VarId) (x : Value) (r : Reference) :
    (s.setValue v x).object? r = s.object? r := rfl

theorem absorb_object (s : State) (w : Written) (r : Reference) :
    (s.absorb w).object? r = s.object? r := rfl

theorem gives_joinVersions (s : State) (r : Reference) (a b : Option HeapObject) :
    Gives (s.joinVersions r a b) (· = joinVersion (a <|> s.object? r) (b <|> s.object? r)) := by
  intro esc
  unfold joinVersions
  cases a <|> s.object? r <;> cases b <|> s.object? r <;> rfl

/-! ## Code that certainly ran -/

theorem mergeBack_frame (s : State) (scopes : ScopeTree) (delta : Layer)
    (discard : Option ScopeId) :
    SameFrame (s.absorb delta.written) (s.mergeBack scopes delta discard) := by
  unfold mergeBack
  simp only
  have hheap (items : List (Reference × HeapObject)) :=
    SameFrame.foldl (fun s (e : Reference × HeapObject) => putVersion_sameFrame s e.1 e.2) items
  have hreach (items : List (VarId × RefSet)) :=
    SameObjects.foldl (fun s (e : VarId × RefSet) => putReach_sameObjects s e.1 e.2) items
  have hvars (items : List (VarId × Value)) :=
    SameObjects.foldl (fun s (e : VarId × Value) => putValue_sameObjects s e.1 e.2) items
  refine SameFrame.trans ?_ (hheap _ _)
  refine SameFrame.trans ?_ (hreach _ _).toSameFrame
  refine SameFrame.trans ?_ (hvars _ _).toSameFrame
  exact ⟨rfl, rfl, rfl⟩

theorem mergeBack_object (s : State) (scopes : ScopeTree) {delta : Layer}
    (hb : delta.boundary = none) (discard : Option ScopeId) (r : Reference) :
    (s.mergeBack scopes delta discard).object? r = (s.withLayer delta).object? r := by
  rw [object?_withLayer hb]
  unfold mergeBack
  simp only
  set start : State := List.foldl (fun (s : State) (e : VarId × RefSet) => s.putReach e.1 e.2) _ _
  have hstart : start.object? r = s.object? r := by
    rw [(SameObjects.foldl (fun s (e : VarId × RefSet) => putReach_sameObjects s e.1 e.2) _ _).object?,
      (SameObjects.foldl (fun s (e : VarId × Value) => putValue_sameObjects s e.1 e.2) _ _).object?]
    rfl
  rw [foldl_toList_at State.object? delta.heap (F := fun _ o _ => some o)
    (fun s e q => putVersion_object s e.1 q e.2), hstart]
  cases delta.heap[r]? <;> rfl

/-! ## Exactly one of two -/

/-- Joins what two pieces of code made of an object. -/
def putJoinedVersion (a b : Objects) (s : State) (r : Reference) : State :=
  match joinVersion (a[r]? <|> s.object? r) (b[r]? <|> s.object? r) with
  | some o => s.putVersion r o
  | none => s

theorem putJoinedVersion_object (a b : Objects) (s : State) (r q : Reference) :
    (putJoinedVersion a b s r).object? q = if r = q then
      joinVersion (a[r]? <|> s.object? q) (b[r]? <|> s.object? q) else s.object? q := by
  unfold putJoinedVersion
  split
  · rename_i o ho
    rw [putVersion_object]
    split
    · rename_i hrq
      rw [← ho, hrq]
    · rfl
  · rename_i hnone
    split
    · rename_i hrq
      rw [← hrq, hnone]
      cases ha : a[r]? with
      | some o =>
        rw [ha] at hnone
        cases hb : (b[r]? <|> s.object? r) <;> rw [hb] at hnone <;> cases hnone
      | none =>
        rw [ha] at hnone
        cases hs : s.object? r with
        | none => rfl
        | some o =>
          rw [hs] at hnone
          cases hb : b[r]? <;> rw [hb] at hnone <;> cases hnone
    · rfl

theorem putJoinedVersion_frame (a b : Objects) (s : State) (r : Reference) :
    SameFrame s (putJoinedVersion a b s r) := by
  unfold putJoinedVersion
  split
  · exact putVersion_sameFrame s r _
  · exact SameFrame.refl s

theorem gives_mergeLive_objects (s : State) (scopes : ScopeTree) (a b : Layer) :
    Gives (s.mergeLive scopes a b) fun t => ∃ u,
      SameObjects ((s.absorb a.written).absorb b.written) u ∧
        SameObjects ((eitherKey a.heap b.heap).foldl (putJoinedVersion a.heap b.heap) u) t := by
  unfold mergeLive
  refine (Gives.loop SameObjects.refl SameObjects.trans (fun v s => ?_) _ _).bind fun u hu => ?_
  · exact (Gives.any _).bind fun x _ => Gives.pure ⟨_, rfl, putValue_sameObjects s v x⟩
  · refine (Gives.loop_eq (g := putJoinedVersion a.heap b.heap) (fun r s => ?_) _ _).bind
      fun w hw => ?_
    · refine (gives_joinVersions s r _ _).bind fun version hversion => ?_
      rw [putJoinedVersion, ← hversion]
      cases version with
      | some o => exact Gives.pure rfl
      | none => exact Gives.pure rfl
    · subst hw
      refine (Gives.loop SameObjects.refl SameObjects.trans (fun v s => ?_) _ _).bind fun t ht => ?_
      · exact Gives.pure ⟨_, rfl, putReach_sameObjects s v _⟩
      · exact Gives.pure ⟨u, hu, ht⟩

theorem joinVersion_self (x : Option HeapObject) : joinVersion x x = x := by
  cases x with
  | none => rfl
  | some o => exact congrArg some (HeapObject.or_of_beq BEq.rfl)

/-- An object has the join of the versions that it has at the ends of both pieces of code. -/
theorem mergeLive_object (s : State) (scopes : ScopeTree) {a b : Layer} (ha : a.boundary = none)
    (hb : b.boundary = none) (r : Reference) :
    Gives (s.mergeLive scopes a b) fun t => t.object? r =
      joinVersion ((s.withLayer a).object? r) ((s.withLayer b).object? r) := by
  intro esc
  obtain ⟨u, hu, ht⟩ := gives_mergeLive_objects s scopes a b esc
  have hobj : u.object? r = s.object? r := hu.object? r
  rw [ht.object?, object?_withLayer ha, object?_withLayer hb,
    foldl_eitherKey_at State.object? a.heap b.heap
    (F := fun r known => joinVersion (a.heap[r]? <|> known) (b.heap[r]? <|> known))
    (putJoinedVersion_object a.heap b.heap), hobj]
  split
  · simp only [Option.orElse_eq_orElse, Option.orElse_eq_or]
  · rename_i hr
    obtain ⟨hna, hnb⟩ := not_or.mp hr
    rw [Option.not_isSome_iff_eq_none.mp hna, Option.not_isSome_iff_eq_none.mp hnb]
    exact (joinVersion_self _).symm

theorem mergeLive_frame (s : State) (scopes : ScopeTree) (a b : Layer) :
    Gives (s.mergeLive scopes a b) (SameFrame ((s.absorb a.written).absorb b.written)) := by
  intro esc
  obtain ⟨u, hu, ht⟩ := gives_mergeLive_objects s scopes a b esc
  exact (hu.toSameFrame.trans (SameFrame.foldl (putJoinedVersion_frame a.heap b.heap) _ u)).trans
    ht.toSameFrame

/-! ## Code that may not have run -/

/-- The join of a version that may be missing and one that is there. -/
def joinWith (known : Option HeapObject) (o : HeapObject) : HeapObject :=
  match known with
  | some a => a.or o
  | none => o

theorem joinVersion_some (known : Option HeapObject) (o : HeapObject) :
    joinVersion known (some o) = some (joinWith known o) := by
  cases known <;> rfl

/-- Joins what there was of an object and what code made of it. -/
def putMaybeVersion (s : State) (e : Reference × HeapObject) : State :=
  s.putVersion e.1 (joinWith (s.object? e.1) e.2)

theorem gives_mergeMaybe_objects (s : State) (scopes : ScopeTree) {delta : Layer}
    (hlive : delta.dead = false) :
    Gives (s.mergeMaybe scopes delta) fun t => ∃ u, SameObjects (s.absorb delta.written) u ∧
      SameObjects (delta.heap.toList.foldl putMaybeVersion u) t := by
  unfold mergeMaybe
  simp only [hlive, Bool.false_eq_true, if_false]
  refine (Gives.loop SameObjects.refl SameObjects.trans (fun e s => ?_) _ _).bind fun u hu => ?_
  · exact (Gives.any _).bind fun x _ => Gives.pure ⟨_, rfl, putValue_sameObjects s e.1 x⟩
  · refine (Gives.loop_eq (g := putMaybeVersion) (fun e s => ?_) _ _).bind fun w hw => ?_
    · refine (gives_joinVersions s e.1 none (some e.2)).bind fun version hversion => ?_
      have hsome : version = some (joinWith (s.object? e.1) e.2) :=
        hversion.trans (joinVersion_some _ _)
      rw [hsome]
      exact Gives.pure rfl
    · subst hw
      refine (Gives.loop SameObjects.refl SameObjects.trans (fun e s => ?_) _ _).bind fun t ht => ?_
      · exact Gives.pure ⟨_, rfl, putReach_sameObjects s e.1 _⟩
      · exact Gives.pure ⟨u, hu, ht⟩

/-- An object has the join of the version that it had and the one that it has at the end of code that
comes to its end. -/
theorem mergeMaybe_object (s : State) (scopes : ScopeTree) {delta : Layer}
    (hb : delta.boundary = none) (r : Reference) :
    Gives (s.mergeMaybe scopes delta) fun t => t.object? r =
      if delta.dead then s.object? r
      else joinVersion (s.object? r) ((s.withLayer delta).object? r) := by
  cases hd : delta.dead with
  | true =>
    unfold mergeMaybe
    simp only [hd, if_true]
    exact Gives.pure rfl
  | false =>
    intro esc
    obtain ⟨u, hu, ht⟩ := gives_mergeMaybe_objects s scopes hd esc
    have hobj : u.object? r = s.object? r := hu.object? r
    rw [if_neg Bool.false_ne_true, ht.object?, object?_withLayer hb]
    rw [foldl_toList_at State.object? delta.heap (F := fun _ o known => some (joinWith known o))
      (fun s e q => by
        rw [putMaybeVersion, putVersion_object]
        split
        · rename_i heq
          rw [heq]
        · rfl), hobj]
    cases delta.heap[r]? with
    | some o => exact (joinVersion_some _ _).symm
    | none => exact (joinVersion_self _).symm

theorem mergeMaybe_frame (s : State) (scopes : ScopeTree) (delta : Layer) :
    Gives (s.mergeMaybe scopes delta) (SameFrame (s.absorb delta.written)) := by
  cases hd : delta.dead with
  | true =>
    unfold mergeMaybe
    simp only [hd, if_true]
    exact Gives.pure (SameFrame.refl _)
  | false =>
    intro esc
    obtain ⟨u, hu, ht⟩ := gives_mergeMaybe_objects s scopes hd esc
    exact (hu.toSameFrame.trans
      (SameFrame.foldl (f := putMaybeVersion) (fun s e => putVersion_sameFrame s e.1 _) _ u)).trans
      ht.toSameFrame

/-! ## Code that may have stopped anywhere -/

/-- Joins what there was of an object and all that code put, unless that changes nothing. -/
def putUnsureVersion (s : State) (e : Reference × HeapObject) : State :=
  if s.object? e.1 != some (joinWith (s.object? e.1) e.2) then putMaybeVersion s e else s

theorem putUnsureVersion_frame (s : State) (e : Reference × HeapObject) :
    SameFrame s (putUnsureVersion s e) := by
  unfold putUnsureVersion
  split
  · exact putVersion_sameFrame s _ _
  · exact SameFrame.refl s

theorem gives_mergeUnsure_objects (s : State) (scopes : ScopeTree) (w : Written) :
    Gives (s.mergeUnsure scopes w) fun t => ∃ u v, SameObjects s u ∧
      SameObjects (w.heap.toList.foldl putUnsureVersion u) v ∧ t = v.absorb w := by
  unfold mergeUnsure
  refine (Gives.loop SameObjects.refl SameObjects.trans (fun e s => ?_) _ _).bind fun u hu => ?_
  · refine (Gives.any _).bind fun x _ => ?_
    simp only
    split
    · exact Gives.pure ⟨_, rfl, putValue_sameObjects s e.1 x⟩
    · exact Gives.pure ⟨_, rfl, SameObjects.refl s⟩
  · refine (Gives.loop_eq (g := putUnsureVersion) (fun e s => ?_) _ _).bind fun w' hw' => ?_
    · refine (gives_joinVersions s e.1 none (some e.2)).bind fun version hversion => ?_
      have hsome : version = some (joinWith (s.object? e.1) e.2) :=
        hversion.trans (joinVersion_some _ _)
      rw [hsome]
      unfold putUnsureVersion
      simp only
      split
      · exact Gives.pure rfl
      · exact Gives.pure rfl
    · subst hw'
      refine (Gives.loop SameObjects.refl SameObjects.trans (fun e s => ?_) _ _).bind fun v hv => ?_
      · simp only
        split
        · exact Gives.pure ⟨_, rfl, putReach_sameObjects s e.1 _⟩
        · exact Gives.pure ⟨_, rfl, SameObjects.refl s⟩
      · exact Gives.pure ⟨u, v, hu, hv, rfl⟩

/-- An object has the join of the version that it had and of all versions that were put. -/
theorem mergeUnsure_object (s : State) (scopes : ScopeTree) (w : Written) (r : Reference) :
    Gives (s.mergeUnsure scopes w) fun t =>
      (t.object? r == joinVersion (s.object? r) w.heap[r]?) = true := by
  intro esc
  obtain ⟨u, v, hu, hv, ht⟩ := gives_mergeUnsure_objects s scopes w esc
  have hobj : u.object? r = s.object? r := hu.object? r
  rw [ht, absorb_object, hv.object?, foldl_toList_at State.object? w.heap
    (F := fun _ o known =>
      if known != some (joinWith known o) then some (joinWith known o) else known)
    (fun s e q => by
      unfold putUnsureVersion
      by_cases heq : e.1 = q
      · subst heq
        rw [if_pos rfl]
        split
        · rw [putMaybeVersion, putVersion_object, if_pos rfl]
        · rfl
      · rw [if_neg heq]
        split
        · rw [putMaybeVersion, putVersion_object, if_neg heq]
        · rfl), hobj]
  cases w.heap[r]? with
  | none => cases s.object? r <;> simp [joinVersion]
  | some o =>
    rw [joinVersion_some, Option.elim_some]
    split
    · simp
    · rename_i hsame
      rwa [Bool.not_eq_true, bne, Bool.not_eq_false'] at hsame

theorem mergeUnsure_frame (s : State) (scopes : ScopeTree) (w : Written) :
    Gives (s.mergeUnsure scopes w) (SameFrame (s.absorb w)) := by
  intro esc
  obtain ⟨u, v, hu, hv, ht⟩ := gives_mergeUnsure_objects s scopes w esc
  have hframe := (hu.toSameFrame.trans (SameFrame.foldl putUnsureVersion_frame _ u)).trans
    hv.toSameFrame
  rw [ht]
  exact ⟨hframe.below, hframe.boundary, by
    change (v.top.written.absorb w).1 = (s.top.written.absorb w).1
    rw [hframe.written]⟩

end State

end EsOptimizer
