import EsOptimizer.Proofs.Flow.Branches

/-!
# Blocks are transparent

A block is followed in a child of the state around it, so that its own variables can go out of scope
at its end. Nothing else may come of that: after `mergeBack` the state must know what it would know if
the changes had been made to it directly (`block_transparent`).

What is read goes through the child to the state around it (`Beside`), so each change finds the same
in both. Unions are the exception: the child starts one of its own, which is added to that of the
state at the end. So the same pieces are joined in another grouping, which is a matter of
`Written.absorb_assoc`: pieces may be added one by one, or together.
-/

namespace EsOptimizer

/-! ## Joins in another grouping -/

theorem HeapObject.or_below_or {a b c d : HeapObject} (hac : a.Below c) (hbd : b.Below d) :
    (a.or b).Below (c.or d) :=
  or_below (hac.trans (below_or_left c d)) (hbd.trans (below_or_right c d))

theorem HeapObject.or_congr_beq {a b c d : HeapObject} (hac : (a == c) = true)
    (hbd : (b == d) = true) : (a.or b == c.or d) = true := by
  obtain ⟨hac, hca⟩ := beq_iff_below.mp hac
  obtain ⟨hbd, hdb⟩ := beq_iff_below.mp hbd
  exact beq_iff_below.mpr ⟨or_below_or hac hbd, or_below_or hca hdb⟩

theorem Value.or_congr_beq {a b c d : Value} (hac : (a == c) = true) (hbd : (b == d) = true) :
    (a.or b == c.or d) = true := by
  obtain ⟨hac, hca⟩ := beq_iff_below.mp hac
  obtain ⟨hbd, hdb⟩ := beq_iff_below.mp hbd
  exact beq_iff_below.mpr ⟨or_below_or hac hbd, or_below_or hca hdb⟩

section Entries

variable {α : Type} [BEq α] {f : α → α → α}

theorem entry_beq_symm [PartialEquivBEq α] {a b : Option α} (h : (a == b) = true) :
    (b == a) = true := by
  cases a <;> cases b
  · rfl
  · cases h
  · cases h
  · exact PartialEquivBEq.symm (α := α) h

theorem entry_beq_trans [PartialEquivBEq α] {a b c : Option α} (hab : (a == b) = true)
    (hbc : (b == c) = true) : (a == c) = true := by
  cases a <;> cases b
  · exact hbc
  · cases hab
  · cases hab
  · cases c
    · cases hbc
    · exact PartialEquivBEq.trans (α := α) hab hbc

/-- Entries that are equal have equal joins. -/
theorem merge_congr_beq (hcongr : ∀ {x y z u}, (x == z) = true → (y == u) = true → (f x y == f z u) = true)
    {a b c d : Option α} (hac : (a == c) = true) (hbd : (b == d) = true) :
    (Option.merge f a b == Option.merge f c d) = true := by
  cases a with
  | none =>
    cases c with
    | none => cases b <;> cases d <;> exact hbd
    | some z => cases hac
  | some x =>
    cases c with
    | none => cases hac
    | some z =>
      cases b with
      | none =>
        cases d with
        | none => exact hac
        | some u => cases hbd
      | some y =>
        cases d with
        | none => cases hbd
        | some u => exact hcongr hac hbd

/-- Three entries, each of which may be missing, may be joined from either end. -/
theorem merge_assoc_beq [ReflBEq α] (hassoc : ∀ x y z, (f (f x y) z == f x (f y z)) = true)
    (a b c : Option α) :
    (Option.merge f (Option.merge f a b) c == Option.merge f a (Option.merge f b c)) = true := by
  cases a with
  | none => cases b <;> cases c <;> exact BEq.rfl
  | some x =>
    cases b with
    | none => cases c <;> exact BEq.rfl
    | some y =>
      cases c with
      | none => exact BEq.rfl
      | some z => exact hassoc x y z

end Entries

namespace Written

variable {w w' w'' a b : Written}

theorem Same.symm (h : w.Same w') : w'.Same w :=
  ⟨fun v => entry_beq_symm (h.value v), fun r => entry_beq_symm (h.version r),
    fun v => ⟨(h.reach v).1.symm, fun r => ((h.reach v).2 r).symm⟩⟩

theorem Same.trans (h : w.Same w') (h' : w'.Same w'') : w.Same w'' :=
  ⟨fun v => entry_beq_trans (h.value v) (h'.value v),
    fun r => entry_beq_trans (h.version r) (h'.version r),
    fun v => ⟨(h.reach v).1.trans (h'.reach v).1,
      fun r => ((h.reach v).2 r).trans ((h'.reach v).2 r)⟩⟩

/-- Equal unions are equal after equal pieces are added. -/
theorem Same.absorb (h : w.Same w') (hab : a.Same b) : (w.absorb a).1.Same (w'.absorb b).1 where
  value v := by
    rw [absorb_vars_at, absorb_vars_at]
    exact merge_congr_beq Value.or_congr_beq (h.value v) (hab.value v)
  version r := by
    rw [absorb_heap_at, absorb_heap_at]
    exact merge_congr_beq HeapObject.or_congr_beq (h.version r) (hab.version r)
  reach v := by
    refine ⟨?_, fun r => ?_⟩
    · rw [isSome_absorb_reach, isSome_absorb_reach, (h.reach v).1, (hab.reach v).1]
    · rw [mem_absorb_reach, mem_absorb_reach, (h.reach v).2 r, (hab.reach v).2 r]

/-- Two pieces may be added one after the other, or together. -/
theorem absorb_assoc (w a b : Written) :
    ((w.absorb a).1.absorb b).1.Same (w.absorb (a.absorb b).1).1 where
  value v := by
    simp only [absorb_vars_at]
    exact merge_assoc_beq Value.or_assoc_beq _ _ _
  version r := by
    simp only [absorb_heap_at]
    exact merge_assoc_beq HeapObject.or_assoc_beq _ _ _
  reach v := by
    refine ⟨?_, fun r => ?_⟩
    · simp only [isSome_absorb_reach, Bool.or_assoc]
    · simp only [mem_absorb_reach, or_assoc]

/-- What giving a variable a value adds to a union. -/
def ofValue (v : VarId) (x : Value) (refs : RefSet) : Written :=
  { vars := ({} : Values).insert v x, reach := ({} : Reach).insert v refs }

/-- What putting a version of an object adds to a union. -/
def ofObject (r : Reference) (o : HeapObject) : Written := { heap := ({} : Objects).insert r o }

theorem addValue_same_absorb (w : Written) (v : VarId) (x : Value) (refs : RefSet) :
    ((w.addValue v x).1.addReach v refs).1.Same (w.absorb (ofValue v x refs)).1 where
  value u := by
    rw [addReach_vars, addValue_at, absorb_vars_at, ofValue, Values.getElem?_insert_nat]
    split
    · exact BEq.rfl
    · rw [Std.TreeMap.getElem?_emptyc, Option.merge_none_right, BEq.rfl]
  version r := by
    rw [addReach_heap, addValue_heap, absorb_heap_at, ofValue, Std.TreeMap.getElem?_emptyc,
      Option.merge_none_right, BEq.rfl]
  reach u := by
    have hreach : ((w.addValue v x).1.addReach v refs).1.reach[u]? =
        (w.absorb (ofValue v x refs)).1.reach[u]? := by
      rw [addReach_at, addValue_reach, absorb_reach_at, ofValue, getElem?_insert_of_key]
      split
      · rfl
      · rw [Std.TreeMap.getElem?_emptyc]
        rfl
    simp only [Std.TreeMap.getD_eq_getD_getElem?, hreach, true_and, implies_true]

theorem addObject_same_absorb (w : Written) (r : Reference) (o : HeapObject) :
    (w.addObject r o).1.Same (w.absorb (ofObject r o)).1 where
  value v := by
    rw [addObject_vars, absorb_vars_at, ofObject, Std.TreeMap.getElem?_emptyc,
      Option.merge_none_right, BEq.rfl]
  version q := by
    rw [addObject_at, absorb_heap_at, ofObject, Objects.getElem?_insert_ref]
    split
    · exact BEq.rfl
    · rw [Std.TreeMap.getElem?_emptyc, Option.merge_none_right, BEq.rfl]
  reach v := by
    have hreach : (w.addObject r o).1.reach[v]? = (w.absorb (ofObject r o)).1.reach[v]? := by
      rw [addObject_reach, absorb_reach_at, ofObject, Std.TreeMap.getElem?_emptyc]
      rfl
    simp only [Std.TreeMap.getD_eq_getD_getElem?, hreach, true_and, implies_true]

/-- A piece that is added both to `a` and to the union of `w` and `a` keeps the latter a union. -/
theorem Same.absorb_piece {whole a' whole' piece : Written} (h : (w.absorb a).1.Same whole)
    (ha : a'.Same (a.absorb piece).1) (hwhole : whole'.Same (whole.absorb piece).1) :
    (w.absorb a').1.Same whole' :=
  ((Same.refl w).absorb ha).trans <| (absorb_assoc w a piece).symm.trans <|
    (h.absorb (Same.refl piece)).trans hwhole.symm

end Written

namespace State

/-! ## Reading versions -/

theorem lookupObject_eq (s : State) (r : Reference) : s.lookupObject r = s.top.heap[r]?.elim
    (if s.top.boundsObject r then .changing else Layer.objectIn r s.below) .found := by
  unfold lookupObject layers
  rw [Layer.objectIn]
  cases s.top.heap[r]? <;> rfl

theorem lookupObject_child (s : State) (r : Reference) :
    s.child.lookupObject r = s.lookupObject r := by
  rw [lookupObject_eq]
  rfl

theorem lookupObject_withLayer {s : State} {delta : Layer} (h : delta.boundary = none)
    (r : Reference) : (s.withLayer delta).lookupObject r =
      delta.heap[r]?.elim (s.lookupObject r) .found := by
  rw [lookupObject_eq, withLayer, Layer.boundsObject, h]
  cases delta.heap[r]? <;> rfl

theorem SameObjects.lookupObject {s t : State} (h : SameObjects s t) (r : Reference) :
    t.lookupObject r = s.lookupObject r := by
  rw [lookupObject_eq, lookupObject_eq, h.heap, h.below, Layer.boundsObject, Layer.boundsObject,
    h.boundary]

theorem putVersion_lookupObject (s : State) (r q : Reference) (o : HeapObject) :
    (s.putVersion r o).lookupObject q = if r = q then .found o else s.lookupObject q := by
  rw [lookupObject_eq, lookupObject_eq]
  change ((s.top.heap.insert r o)[q]?).elim _ ObjectLookup.found = _
  rw [Objects.getElem?_insert_ref]
  split <;> rfl

theorem mergeBack_lookupObject (s : State) (scopes : ScopeTree) (delta : Layer)
    (discard : Option ScopeId) (r : Reference) :
    (s.mergeBack scopes delta discard).lookupObject r =
      delta.heap[r]?.elim (s.lookupObject r) .found := by
  unfold mergeBack
  simp only
  rw [foldl_toList_at State.lookupObject delta.heap (F := fun _ o _ => .found o)
    (fun s e q => putVersion_lookupObject s e.1 q e.2)]
  rw [(SameObjects.foldl (fun s (e : VarId × RefSet) => putReach_sameObjects s e.1 e.2)
      _ _).lookupObject,
    (SameObjects.foldl (fun s (e : VarId × Value) => putValue_sameObjects s e.1 e.2)
      _ _).lookupObject]
  rfl

/-! ## Changes -/

/-- What code without branches does to a state. -/
inductive Change where
  | set (v : VarId) (value : Value)
  | put (r : Reference) (o : HeapObject)
  | stop

def Change.apply (s : State) : Change → State
  | .set v value => s.setValue v value
  | .put r o => s.putObject r o
  | .stop => s.markDead

def applyAll (s : State) (changes : List Change) : State := changes.foldl Change.apply s

/-- Nothing that can be read from the states tells them apart. -/
structure Indistinct (s t : State) : Prop where
  value : ∀ v, s.lookup v = t.lookup v
  reach : ∀ v, s.reachOf v = t.reachOf v
  version : ∀ r, s.lookupObject r = t.lookupObject r

/-- The states `c`, a child of `s`, and `t` have come about by the same changes, made to the child
and to `s` itself. -/
structure Beside (s c t : State) : Prop extends Indistinct c t where
  below : c.below = s.layers
  boundary : c.top.boundary = none
  dead : t.isDead = (s.isDead || c.isDead)
  written : (s.top.written.absorb c.top.written).1.Same t.top.written

namespace Beside

variable {s c t : State}

theorem child (s : State) : Beside s s.child s where
  value := lookup_child s
  reach := reachOf_child s
  version := lookupObject_child s
  below := rfl
  boundary := rfl
  dead := (Bool.or_false _).symm
  written := Written.Same.refl s.top.written

/-- The child is its layer on top of what is around it. -/
theorem eq_withLayer (h : Beside s c t) : c = s.withLayer c.top := by
  obtain ⟨top, below⟩ := c
  rw [withLayer, ← h.below]

theorem setValue (h : Beside s c t) (v : VarId) (x : Value) :
    Beside s (c.setValue v x) (t.setValue v x) := by
  set refs : RefSet :=
    if x.isUnknown then (RefSet.ofList x.references).union (c.reachOf v)
      else RefSet.ofList x.references with hrefs
  have hrefs' : refs = if x.isUnknown then (RefSet.ofList x.references).union (t.reachOf v)
      else RefSet.ofList x.references := by
    rw [hrefs, h.reach]
  have hreach (s : State) (u : VarId) : (s.setValue v x).reachOf u = if v = u then
      (if x.isUnknown then (RefSet.ofList x.references).union (s.reachOf v)
        else RefSet.ofList x.references) else s.reachOf u :=
    putReach_reachOf s v u _
  refine ⟨⟨fun u => ?_, fun u => ?_, h.version⟩, h.below, h.boundary, h.dead,
    h.written.absorb_piece (Written.addValue_same_absorb _ v x refs) ?_⟩
  · rw [setValue_lookup, setValue_lookup, h.value]
  · rw [hreach, hreach, h.reach, h.reach]
  · rw [hrefs']
    exact Written.addValue_same_absorb _ v x _

theorem putObject (h : Beside s c t) (r : Reference) (o : HeapObject) :
    Beside s (c.putObject r o) (t.putObject r o) := by
  have hversion (s : State) (q : Reference) : (s.putObject r o).lookupObject q =
      if r = q then .found o else s.lookupObject q :=
    putVersion_lookupObject s r q o
  refine ⟨⟨h.value, h.reach, fun q => ?_⟩, h.below, h.boundary, h.dead,
    h.written.absorb_piece (Written.addObject_same_absorb _ r o)
      (Written.addObject_same_absorb _ r o)⟩
  rw [hversion, hversion, h.version]

theorem markDead (h : Beside s c t) : Beside s c.markDead t.markDead :=
  ⟨⟨h.value, h.reach, h.version⟩, h.below, h.boundary, (Bool.or_true _).symm, h.written⟩

theorem apply (h : Beside s c t) (change : Change) :
    Beside s (change.apply c) (change.apply t) := by
  cases change with
  | set v x => exact h.setValue v x
  | put r o => exact h.putObject r o
  | stop => exact h.markDead

theorem applyAll (h : Beside s c t) (changes : List Change) :
    Beside s (c.applyAll changes) (t.applyAll changes) := by
  induction changes generalizing c t with
  | nil => exact h
  | cons change rest ih => exact ih (h.apply change)

end Beside

/-! ## The end of a block -/

/-- The state at the end of a block, whose variables of the scope `discard` go out of scope, and the
state after the same changes without a block. Variables that go out of scope are as they were before
the block. -/
structure Closes (scopes : ScopeTree) (discard : Option ScopeId) (s direct merged : State) : Prop where
  value : ∀ v, merged.lookup v =
    if discard = some (scopes.var v).scope then s.lookup v else direct.lookup v
  reach : ∀ v, merged.reachOf v =
    if discard = some (scopes.var v).scope then s.reachOf v else direct.reachOf v
  version : ∀ r, merged.lookupObject r = direct.lookupObject r
  dead : merged.isDead = direct.isDead
  written : merged.top.written.Same direct.top.written

theorem Beside.closes {s c t : State} (h : Beside s c t) (scopes : ScopeTree)
    (discard : Option ScopeId) : Closes scopes discard s t (s.mergeBack scopes c.top discard) where
  value v := by
    rw [mergeBack_lookup, ← h.value, h.eq_withLayer, lookup_withLayer h.boundary]
    rfl
  reach v := by
    rw [mergeBack_reachOf, ← h.reach, h.eq_withLayer, reachOf_withLayer h.boundary]
    rfl
  version r := by
    rw [mergeBack_lookupObject, ← h.version, h.eq_withLayer, lookupObject_withLayer h.boundary]
    rfl
  dead := (mergeBack_rest s scopes c.top discard).2.2.1.trans h.dead.symm
  written := by
    rw [(mergeBack_frame s scopes c.top discard).written]
    exact h.written

/-- A block is transparent: whatever changes it makes, its end leaves what they leave without a block,
apart from the variables that go out of scope with it. -/
theorem block_transparent (scopes : ScopeTree) (s : State) (changes : List Change) :
    let block := (s.child.applyAll changes).top
    let direct := s.applyAll changes
    (Indistinct (s.mergeBack scopes block none) direct ∧
      (s.mergeBack scopes block none).isDead = direct.isDead ∧
      (s.mergeBack scopes block none).top.written.Same direct.top.written) ∧
    ∀ scope, Closes scopes (some scope) s direct (s.mergeBack scopes block (some scope)) := by
  intro block direct
  have h : Beside s (s.child.applyAll changes) direct := (Beside.child s).applyAll changes
  obtain ⟨hvalue, hreach, hversion, hdead, hwritten⟩ := h.closes scopes none
  refine ⟨⟨⟨fun v => ?_, fun v => ?_, hversion⟩, hdead, hwritten⟩,
    fun scope => h.closes scopes (some scope)⟩
  · rw [hvalue, if_neg (by simp)]
  · rw [hreach, if_neg (by simp)]

end State

end EsOptimizer
