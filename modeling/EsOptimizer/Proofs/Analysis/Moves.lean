import EsOptimizer.Analysis.Interpret
import EsOptimizer.Proofs.Analysis.Advances

/-!
# Steps of the analysis

`Track.Moves` says that a step does no more than `Advances` allows, wherever it starts. It holds of
the elementary steps, it is kept by every way to put steps together, and so it holds of everything
that the analysis does with properties, operators and calls: those change objects, but neither
record facts nor write variables.

Code in a state of its own comes back as a layer. `Track.MovesTo` also says something of the result,
here that the layer has nothing of a variable that the code does not write.
-/

namespace EsOptimizer

namespace Track

section

variable {α β : Type}

/-- Wherever it starts, a step only adds to what was found out. -/
def Moves (cx : Context) (b : Bounds) (x : Track α) : Prop :=
  ∀ p, Advances cx.scopes b p (x cx p).2

/-- Wherever it starts, a step only adds to what was found out, and its result has a property. -/
def MovesTo (cx : Context) (b : Bounds) (x : Track α)
    (P : α → Prop) : Prop :=
  ∀ p, P (x cx p).1 ∧ Advances cx.scopes b p (x cx p).2

variable {cx : Context} {b : Bounds}

/-! ## Putting steps together -/

theorem bind_apply (x : Track α) (f : α → Track β) (cx : Context) (p : Progress) :
    (x >>= f) cx p = f (x cx p).1 cx (x cx p).2 := rfl

/-- Steps for items of a list keep what each of them keeps. -/
theorem forIn_keeps {I : Progress → Prop} {items : List α}
    {f : α → β → Track (ForInStep β)} (h : ∀ a ∈ items, ∀ y p, I p → I (f a y cx p).2) (y : β)
    {p : Progress} (hp : I p) : I (ForIn.forIn items y f cx p).2 := by
  induction items generalizing y p with
  | nil => exact hp
  | cons a rest ih =>
    have hstep := h a List.mem_cons_self y p hp
    rw [List.forIn_cons, bind_apply]
    cases (f a y cx p).1 with
    | done z => exact hstep
    | yield z => exact ih (fun b hb => h b (List.mem_cons_of_mem _ hb)) z hstep

theorem Moves.pure (a : α) : Moves cx b (Pure.pure a : Track α) := fun p => Advances.refl p

theorem Moves.bind {x : Track α} {f : α → Track β} (hx : Moves cx b x)
    (hf : ∀ a, Moves cx b (f a)) : Moves cx b (x >>= f) :=
  fun p => (hx p).trans (hf _ _)

theorem MovesTo.bind {x : Track α} {f : α → Track β} {P : α → Prop}
    (hx : MovesTo cx b x P) (hf : ∀ a, P a → Moves cx b (f a)) :
    Moves cx b (x >>= f) :=
  fun p => (hx p).2.trans (hf _ (hx p).1 _)

theorem MovesTo.bind_to {x : Track α} {f : α → Track β} {P : α → Prop} {Q : β → Prop}
    (hx : MovesTo cx b x P) (hf : ∀ a, P a → MovesTo cx b (f a) Q) :
    MovesTo cx b (x >>= f) Q := by
  intro p
  obtain ⟨hb, hqr⟩ := hf _ (hx p).1 (x cx p).2
  exact ⟨hb, (hx p).2.trans hqr⟩

theorem Moves.bind_to {x : Track α} {f : α → Track β} {Q : β → Prop} (hx : Moves cx b x)
    (hf : ∀ a, MovesTo cx b (f a) Q) : MovesTo cx b (x >>= f) Q := by
  intro p
  obtain ⟨hb, hqr⟩ := hf (x cx p).1 (x cx p).2
  exact ⟨hb, (hx p).trans hqr⟩

theorem MovesTo.pure {a : α} {P : α → Prop} (h : P a) :
    MovesTo cx b (Pure.pure a : Track α) P :=
  fun p => ⟨h, Advances.refl p⟩

theorem Moves.map {x : Track α} {f : α → β} (hx : Moves cx b x) :
    Moves cx b (f <$> x) :=
  fun p => hx p

/-- A step that depends on what the analysis reads or has found out so far. -/
theorem Moves.read {f : Context → Track β} (hf : Moves cx b (f cx)) :
    Moves cx b (MonadReader.read >>= f) :=
  fun p => hf p

theorem Moves.get {f : Progress → Track β} (hf : ∀ p, Moves cx b (f p)) :
    Moves cx b (MonadState.get >>= f) :=
  fun p => hf p p

theorem Moves.modify {f : Progress → Progress} (hf : ∀ p, Advances cx.scopes b p (f p)) :
    Moves cx b (MonadState.modifyGet (fun p => ((), f p)) : Track Unit) :=
  hf

theorem Moves.forIn_mem {f : α → β → Track (ForInStep β)} {items : List α}
    (hf : ∀ a ∈ items, ∀ y, Moves cx b (f a y)) (y : β) :
    Moves cx b (ForIn.forIn items y f) := fun p =>
  forIn_keeps (I := Advances cx.scopes b p) (fun a ha y q hq => hq.trans (hf a ha y q)) y
    (Advances.refl p)

theorem Moves.forIn {f : α → β → Track (ForInStep β)} (hf : ∀ a y, Moves cx b (f a y))
    (items : List α) (y : β) : Moves cx b (ForIn.forIn items y f) :=
  Moves.forIn_mem (fun a _ => hf a) y

theorem Moves.forM {f : α → Track PUnit} (hf : ∀ a, Moves cx b (f a)) (items : List α) :
    Moves cx b (items.forM f) := by
  induction items with
  | nil => exact Moves.pure _
  | cons a rest ih => exact (hf a).bind fun _ => ih

theorem Moves.mapM {f : α → Track β} (hf : ∀ a, Moves cx b (f a)) (items : List α) :
    Moves cx b (items.mapM f) := by
  induction items with
  | nil => exact Moves.pure _
  | cons a rest ih =>
    rw [List.mapM_cons]
    exact (hf a).bind fun _ => ih.bind fun _ => Moves.pure _

theorem Moves.ite {c : Prop} [Decidable c] {x y : Track α} (hx : c → Moves cx b x)
    (hy : ¬c → Moves cx b y) : Moves cx b (if c then x else y) := by
  split
  · exact hx ‹_›
  · exact hy ‹_›

/-! ## Elementary steps -/

theorem moves_getState : Moves cx b getState := fun p => Advances.refl p

theorem moves_getVar (v : VarId) : Moves cx b (getVar v) := fun p => Advances.refl p

theorem moves_isForeign (v : Variable) : Moves cx b (isForeign v) := fun p => Advances.refl p

theorem moves_deref (r : Reference) : Moves cx b (deref r) := fun p => Advances.refl p

theorem moves_heap : Moves cx b heap := fun p => Advances.refl p

theorem moves_noteEffect : Moves cx b noteEffect := fun p => { Advances.refl p with }

theorem moves_escaping (step : Escaping α) : Moves cx b (escaping step) :=
  fun p => { Advances.refl p with }

theorem moves_escape (refs : List Reference) : Moves cx b (escape refs) := moves_escaping _

theorem moves_join (x y : Value) : Moves cx b (join x y) := moves_escaping _

theorem moves_joinTo (acc : Option Value) (v : Value) : Moves cx b (joinTo acc v) := by
  cases acc with
  | none => exact Moves.pure _
  | some old => exact (moves_join old v).bind fun _ => Moves.pure _

theorem moves_record {node : NodeId} (h : b.ids node) (t : Tracked) :
    Moves cx b (record node t) := by
  intro p
  have hp : Advances cx.scopes b p p := Advances.refl p
  refine { hp with facts := ?_, unrecorded := ?_ }
  · refine GrowsBy.insert NodeFacts.Below.refl fun old hold => ?_
    rw [hold]
    exact ⟨Value.below_or_left _ _, fun hpure => (Bool.and_eq_true_iff.mp hpure).1⟩
  · intro id hid
    refine Std.TreeMap.getElem?_insert.trans (if_neg fun hc => hid ?_)
    rw [← Std.LawfulEqCmp.eq_of_compare hc]
    exact h

theorem moves_recordForIn (node : NodeId) (keys : Option (List String)) :
    Moves cx b (recordForIn node keys) := fun p => { Advances.refl p with }

theorem moves_notify (moment : Moment) (node : NodeId) : Moves cx b (notify moment node) := by
  refine Moves.read ?_
  split
  · exact fun p => { Advances.refl p with }
  · exact Moves.pure _

theorem moves_observeCall (function : NodeId) (args : List Value) :
    Moves cx b (observeCall function args) :=
  Moves.modify fun p => { Advances.refl p with observed := ⟨[(function, args)], rfl⟩ }

theorem moves_addPossible {v : VarId} (h : b.vars v) (value : Value) :
    Moves cx b (addPossible (cx.scopes.var v).key value) := by
  intro p
  have hp : Advances cx.scopes b p p := Advances.refl p
  refine { hp with possible := ?_, unstored := ?_ }
  · refine GrowsBy.insert Value.Below.refl fun old hold => ?_
    rw [hold]
    exact Value.below_or_left _ _
  · intro key hkey
    exact Std.TreeMap.getElem?_insert.trans (if_neg fun hc =>
      hkey v h (Std.LawfulEqCmp.eq_of_compare hc))

theorem moves_setValue {v : VarId} (h : b.vars v) (value : Value) :
    Moves cx b (modifyState (·.setValue v value)) := by
  refine Moves.modify fun p => { Advances.refl p with written := ?_, untouched := ?_ }
  · exact (State.setValue_written p.state v value).1
  · exact fun u hu => State.setValue_untouched p.state value fun hvu => hu (hvu ▸ h)

theorem moves_putObject (r : Reference) (o : HeapObject) :
    Moves cx b (modifyState (·.putObject r o)) :=
  Moves.modify fun p => Advances.withState (State.putObject_sameVars p.state r o)

theorem moves_readVar (v : VarId) : Moves cx b (readVar v) := by
  refine Moves.read (Moves.bind (moves_getVar v) fun x => Moves.ite (fun _ => Moves.pure _) fun _ => ?_)
  refine (moves_isForeign x).bind fun foreign => Moves.ite (fun _ => Moves.pure _) fun _ => ?_
  exact moves_getState.bind fun s => Moves.pure _

theorem moves_writeVar {v : VarId} (h : b.vars v) (value : Value) :
    Moves cx b (writeVar v value) := by
  intro p
  refine (moves_addPossible h value p).trans ?_
  exact (moves_isForeign (cx.scopes.var v)).bind (fun foreign =>
    Moves.ite (fun _ => moves_noteEffect) fun _ => moves_setValue h value) _

/-! ## Objects -/

theorem moves_noteChange (r : Reference) : Moves cx b (noteChange r) :=
  Moves.get fun _ => Moves.ite (fun _ => moves_noteEffect) fun _ => Moves.pure _

theorem moves_updateObject (r : Reference) (o : HeapObject) :
    Moves cx b (updateObject r o) := by
  refine (moves_deref r).bind fun old => ?_
  have hrest : Moves cx b (do noteChange r; modifyState (·.putObject r o)) :=
    (moves_noteChange r).bind fun _ => moves_putObject r o
  exact Moves.ite (fun _ => (moves_escape _).bind fun _ => hrest) fun _ => hrest

theorem moves_makeDirty (r : Reference) : Moves cx b (makeDirty r) := by
  refine (moves_deref r).bind fun old => Moves.ite (fun _ => ?_) fun _ => Moves.pure _
  exact (moves_escape _).bind fun _ => (moves_noteChange r).bind fun _ => moves_putObject r _

theorem moves_allocate (r : Reference) (o : HeapObject) : Moves cx b (allocate r o) := by
  refine Moves.bind (fun p => { Advances.refl p with }) fun _ => moves_getState.bind fun s => ?_
  dsimp only
  split
  · exact (moves_escaping _).bind fun o => moves_putObject r o
  · exact (moves_escape _).bind fun _ => moves_putObject r _
  · exact moves_putObject r o

theorem moves_allocateFunction (id : NodeId) : Moves cx b (allocateFunction id) :=
  (moves_allocate _ _).bind fun _ => (moves_allocate _ _).bind fun _ => Moves.pure _

theorem moves_allocateArray (id : NodeId) (elems : List (Option Value)) :
    Moves cx b (allocateArray id elems) :=
  (moves_allocate _ _).bind fun _ => Moves.pure _

/-! ## Unknown code -/

theorem moves_variableRoots (v : VarId) : Moves cx b (variableRoots v) :=
  fun p => Advances.refl p

theorem moves_sharedVars : Moves cx b sharedVars := fun p => Advances.refl p

theorem moves_unknownCall (roots : List Reference) : Moves cx b (unknownCall roots) := by
  refine Moves.read (moves_sharedVars.bind fun shared => ?_)
  refine (Moves.mapM moves_variableRoots shared).bind fun shared => moves_getState.bind fun s => ?_
  refine Moves.get fun _ => Moves.bind (Moves.forIn (fun r _ => ?_) _ _) fun _ => moves_noteEffect
  refine (moves_escape _).bind fun _ => ?_
  exact Moves.ite (fun _ => (moves_makeDirty r).bind fun _ => Moves.pure _) fun _ => Moves.pure _

theorem moves_toPrimitive (values : List Value) : Moves cx b (toPrimitive values) := by
  unfold toPrimitive
  exact Moves.ite (fun _ => Moves.pure _) fun _ =>
    (moves_unknownCall _).bind fun _ => Moves.pure _

theorem moves_propertyNames (key : Value) : Moves cx b (propertyNames key) :=
  (moves_toPrimitive [key]).bind fun _ => Moves.ite (fun _ => Moves.pure _) fun _ => Moves.pure _

/-! ## Properties -/

theorem moves_accessorSummary? (accessor : Reference) :
    Moves cx b (accessorSummary? accessor) :=
  fun p => Advances.refl p

theorem moves_readObject (o : HeapObject) (this : Reference) (name : String) :
    Moves cx b (readObject o this name) := by
  refine moves_heap.bind fun h => ?_
  split
  · exact Moves.pure _
  · exact Moves.pure _
  · refine (moves_accessorSummary? _).bind fun summary => ?_
    exact Moves.ite (fun _ => (moves_unknownCall _).bind fun _ => Moves.pure _) fun _ => Moves.pure _
  · exact (moves_unknownCall _).bind fun _ => Moves.pure _

theorem moves_readPrototype (h : Host) (name : String) : Moves cx b (readPrototype h name) :=
  (moves_deref _).bind fun _ => moves_readObject _ _ _

theorem moves_readPrimitive (p : Primitive) (name : String) :
    Moves cx b (readPrimitive p name) := by
  unfold readPrimitive
  split
  · exact moves_noteEffect.bind fun _ => Moves.pure _
  · exact moves_noteEffect.bind fun _ => Moves.pure _
  · refine Moves.ite (fun _ => Moves.pure _) fun _ => ?_
    split
    · exact Moves.pure _
    · exact moves_readPrototype _ _
  · exact moves_readPrototype _ _
  · exact moves_readPrototype _ _

theorem moves_readSingle (s : Single) (name : String) : Moves cx b (readSingle s name) := by
  cases s with
  | primitive p => exact moves_readPrimitive p name
  | reference r => exact (moves_deref r).bind fun _ => moves_readObject _ _ _

theorem moves_readProperty (obj key : Value) : Moves cx b (readProperty obj key) := by
  refine (moves_propertyNames key).bind fun names => ?_
  split
  · split
    · refine Moves.bind (Moves.forIn (fun s _ => ?_) _ _) fun _ => Moves.pure _
      refine Moves.bind (Moves.forIn (fun name _ => ?_) _ _) fun _ => Moves.pure _
      exact (moves_readSingle s name).bind fun t => (moves_joinTo _ _).bind fun _ => Moves.pure _
    · exact (moves_unknownCall _).bind fun _ => Moves.pure _
  · exact Moves.pure _

theorem moves_callSetter (set this : Reference) (value : Value) :
    Moves cx b (callSetter set this value) := by
  refine (moves_accessorSummary? set).bind fun summary => ?_
  split
  · exact Moves.ite (fun _ => moves_unknownCall _) fun _ => Moves.pure _
  · exact moves_unknownCall _

theorem moves_writeData (weak : Bool) (r : Reference) (o : HeapObject) (name : String)
    (value : Value) : Moves cx b (writeData weak r o name value) := by
  have hrest (updated : HeapObject) : Moves cx b (do
      if updated.dirty then escape value.references
      updateObject r updated) :=
    Moves.ite (fun _ => (moves_escape _).bind fun _ => moves_updateObject r updated)
      fun _ => moves_updateObject r updated
  exact Moves.ite (fun _ => (moves_escaping _).bind hrest) fun _ => hrest _

theorem moves_writeReference (weak : Bool) (r : Reference) (name : String) (value : Value) :
    Moves cx b (writeReference weak r name value) := by
  refine Moves.ite (fun _ => (moves_escape _).bind fun _ => moves_makeDirty r) fun _ => ?_
  refine (moves_deref r).bind fun o => Moves.ite
    (fun _ => (moves_escape _).bind fun _ => moves_noteChange r) fun _ => moves_heap.bind fun h => ?_
  split
  · exact moves_writeData weak r o name value
  · exact moves_callSetter _ r value
  · exact Moves.pure _
  · exact moves_unknownCall _

theorem moves_propertyName (key : Value) : Moves cx b (propertyName key) := by
  refine (moves_propertyNames key).bind fun names => ?_
  split
  · exact Moves.pure _
  · exact Moves.pure _

theorem moves_writeProperty (obj key value : Value) :
    Moves cx b (writeProperty obj key value) := by
  unfold writeProperty
  split
  · exact moves_unknownCall _
  · refine (moves_propertyName key).bind fun name => ?_
    split
    · exact (moves_escape _).bind fun _ => Moves.forM moves_makeDirty _
    · refine Moves.bind (Moves.forIn (fun s _ => ?_) _ _) fun _ => Moves.pure _
      split
      · exact Moves.ite (fun _ => moves_noteEffect.bind fun _ => Moves.pure _) fun _ => Moves.pure _
      · exact (moves_writeReference _ _ _ _).bind fun _ => Moves.pure _

theorem moves_deleteReference (r : Reference) (name : String) :
    Moves cx b (deleteReference r name) := by
  refine (moves_deref r).bind fun o => ?_
  refine Moves.ite (fun _ => (moves_makeDirty r).bind fun _ => Moves.pure _) fun _ => ?_
  split
  · exact Moves.ite (fun _ => (moves_updateObject r _).bind fun _ => Moves.pure _)
      fun _ => Moves.pure _
  · exact Moves.ite (fun _ => (moves_makeDirty r).bind fun _ => Moves.pure _) fun _ => Moves.pure _

theorem moves_deleteSingle (s : Single) (name : String) :
    Moves cx b (deleteSingle s name) := by
  cases s with
  | primitive p =>
    exact Moves.ite (fun _ => moves_noteEffect.bind fun _ => Moves.pure _) fun _ => Moves.pure _
  | reference r => exact moves_deleteReference r name

theorem moves_deleteProperty (obj key : Value) : Moves cx b (deleteProperty obj key) := by
  refine (moves_propertyName key).bind fun name => ?_
  split
  · exact (Moves.forM moves_makeDirty _).bind fun _ => Moves.pure _
  · split
    · exact (moves_unknownCall _).bind fun _ => Moves.pure _
    · exact (Moves.mapM (fun s => moves_deleteSingle s _) _).bind fun _ => Moves.pure _

theorem moves_hasProperty (key obj : Value) : Moves cx b (hasProperty key obj) := by
  unfold hasProperty
  split
  · exact moves_noteEffect.bind fun _ => (moves_toPrimitive _).map.bind fun _ => Moves.pure _
  · refine (moves_propertyNames key).bind fun names => ?_
    split
    · exact Moves.pure _
    · exact moves_heap.bind fun _ => Moves.pure _

theorem moves_instanceOf (value callee : Value) : Moves cx b (instanceOf value callee) := by
  refine Moves.ite (fun _ => moves_noteEffect.bind fun _ => Moves.pure _) fun _ => ?_
  refine (moves_readProperty _ _).bind fun proto => ?_
  split
  · exact moves_heap.bind fun _ => Moves.pure _
  · exact moves_noteEffect.bind fun _ => Moves.pure _

theorem moves_enumerate (value : Value) : Moves cx b (enumerate value) := by
  unfold enumerate
  split
  · exact Moves.pure _
  · refine (moves_deref _).bind fun o => moves_heap.bind fun h => ?_
    split
    · exact Moves.pure _
    · exact Moves.pure _
    · exact Moves.pure _
  · exact Moves.pure _

/-! ## Operators and calls -/

theorem moves_looseEquality (negate : Bool) (left right : Value) :
    Moves cx b (looseEquality negate left right) := by
  refine Moves.ite (fun _ => Moves.pure _) fun _ => Moves.ite (fun _ => ?_) fun _ => Moves.pure _
  exact (moves_toPrimitive _).map.bind fun _ => Moves.pure _

theorem moves_binary (op : BinaryOp) (left right : Value) :
    Moves cx b (binary op left right) := by
  unfold binary
  split
  · exact Moves.pure _
  · exact Moves.pure _
  · exact moves_looseEquality _ _ _
  · exact moves_looseEquality _ _ _
  · exact moves_hasProperty _ _
  · exact moves_instanceOf _ _
  · exact Moves.pure _
  · exact Moves.pure _
  · exact (moves_toPrimitive _).bind fun _ =>
      Moves.ite (fun _ => Moves.pure _) fun _ => Moves.pure _

theorem moves_numeric (op : UnaryOp) (arg : Tracked) : Moves cx b (numeric op arg) :=
  (moves_toPrimitive _).bind fun _ => Moves.ite (fun _ => Moves.pure _) fun _ => Moves.pure _

theorem moves_updated (op : UpdateOp) (old : Value) : Moves cx b (updated op old) :=
  (moves_toPrimitive _).bind fun _ => Moves.ite (fun _ => Moves.pure _) fun _ => Moves.pure _

theorem moves_callUnknown (this : Value) (args : List Value) :
    Moves cx b (callUnknown this args) :=
  (moves_unknownCall _).bind fun _ => Moves.pure _

theorem moves_summary? (function : NodeId) : Moves cx b (summary? function) :=
  fun p => Advances.refl p

theorem moves_callFunction (function : NodeId) (this : Value) (args : List Value) :
    Moves cx b (callFunction function this args) := by
  refine (moves_observeCall function args).bind fun _ => (moves_summary? function).bind fun s => ?_
  split
  · exact moves_callUnknown this args
  · exact Moves.ite (fun _ => (moves_unknownCall _).bind fun _ => Moves.pure _) fun _ => Moves.pure _

theorem moves_callArray? (f : Native) (this : Value) (args : List Value) :
    Moves cx b (callArray? f this args) := by
  unfold callArray?
  split
  · refine (moves_deref _).bind fun o => ?_
    split
    · exact Moves.pure _
    · exact Moves.ite (fun _ => (moves_updateObject _ _).bind fun _ => Moves.pure _)
        fun _ => Moves.pure _
  · exact Moves.pure _

theorem moves_callNative (f : Native) (this : Value) (args : List Value) :
    Moves cx b (callNative f this args) := by
  refine Moves.ite (fun _ => ?_) fun _ => Moves.ite (fun _ => ?_) fun _ => ?_
  · refine (moves_callArray? f this args).bind fun t => ?_
    split
    · exact Moves.pure _
    · exact moves_callUnknown this args
  · refine (moves_toPrimitive _).bind fun _ => Moves.ite (fun _ => ?_) fun _ => Moves.pure _
    split
    · exact Moves.pure _
    · exact moves_noteEffect.bind fun _ => Moves.pure _
  · exact Moves.ite
      (fun _ => (moves_unknownCall _).bind fun _ => moves_noteEffect.bind fun _ => Moves.pure _)
      fun _ => moves_noteEffect.bind fun _ => Moves.pure _

theorem moves_callSingle? (s : Single) (this : Value) (args : List Value) :
    Moves cx b (callSingle? s this args) := by
  unfold callSingle?
  split
  · exact (moves_callFunction _ this args).bind fun _ => Moves.pure _
  · exact (moves_callNative _ this args).bind fun _ => Moves.pure _
  · exact moves_noteEffect.bind fun _ => Moves.pure _

theorem moves_call (callee this : Value) (args : List Value) :
    Moves cx b (call callee this args) := by
  unfold call
  split
  · exact moves_callUnknown this args
  · refine Moves.bind (Moves.forIn (fun s _ => ?_) _ _) fun _ => Moves.pure _
    refine (moves_callSingle? s this args).bind fun t => ?_
    split
    · exact (moves_joinTo _ _).bind fun _ => Moves.pure _
    · exact Moves.pure _

theorem moves_constructFunction (node function : NodeId) (callee : Value) (args : List Value) :
    Moves cx b (constructFunction node function callee args) := by
  have hreturn (s : Option FunctionSummary) : Moves cx b (do
      if (s.map (·.returns.isPrimitive)).getD false then
        return .ofImpure (.ofReference (Reference.object node))
      else
        escape [Reference.object node]
        return .ofImpure .unknown : Track Tracked) :=
    Moves.ite (fun _ => Moves.pure _) fun _ => (moves_escape _).bind fun _ => Moves.pure _
  have hrest : Moves cx b (do
      observeCall function args
      let summary ← summary? function
      if !(summary.map (·.pure)).getD false then
        unknownCall (Reference.object node :: handedOver callee args)
      if (summary.map (·.returns.isPrimitive)).getD false then
        return .ofImpure (.ofReference (Reference.object node))
      else
        escape [Reference.object node]
        return .ofImpure .unknown : Track Tracked) := by
    refine (moves_observeCall function args).bind fun _ => (moves_summary? function).bind fun s => ?_
    exact Moves.ite (fun _ => (moves_unknownCall _).bind fun _ => hreturn s) fun _ => hreturn s
  refine (moves_readProperty _ _).bind fun proto => Moves.read ?_
  dsimp only
  split
  · exact (moves_allocate _ _).bind fun _ => hrest
  · exact (moves_escape _).bind fun _ => (moves_allocate _ _).bind fun _ => hrest

theorem moves_construct (node : NodeId) (callee : Value) (args : List Value) :
    Moves cx b (construct node callee args) := by
  unfold construct
  split
  · exact moves_constructFunction node _ callee args
  · exact moves_callUnknown callee args

/-! ## Branches and loops -/

/-- The layer of code within the bounds, which was followed by itself. -/
structure Clean (b : Bounds) (delta : Layer) : Prop where
  lacks : ∀ v, ¬b.vars v → delta.Lacks v
  alive : ¬b.ends → delta.dead = false

/-- Nothing was written that is not within the bounds. -/
def CleanUnion (b : Bounds) (w : Written) : Prop := ∀ v, ¬b.vars v → w.vars[v]? = none

theorem Clean.union {delta : Layer} (h : Clean b delta) : CleanUnion b delta.written :=
  fun v hv => (h.lacks v hv).written

theorem movesTo_inState {start : State → State} {step : Track α}
    (hstart : ∀ s v, (start s).top.Lacks v) (halive : ∀ s, (start s).isDead = false)
    (hstep : Moves cx b step) : MovesTo cx b (inState start step) fun r => Clean b r.2 := by
  intro p
  have h := hstep { p with state := start p.state }
  refine ⟨⟨fun v hv => ?_, fun he => ?_⟩, ?_⟩
  · obtain ⟨hvars, hwritten⟩ := h.untouched v hv
    exact ⟨hvars.trans (hstart p.state v).vars, hwritten.trans (hstart p.state v).written⟩
  · exact (h.alive he).trans (halive p.state)
  · have hp : Advances cx.scopes b p p := Advances.refl p
    exact { hp with
      facts := h.facts
      unrecorded := h.unrecorded
      scope := h.scope
      returns := h.returns
      observed := h.observed
      possible := h.possible
      unstored := h.unstored
      summaries := h.summaries }

theorem movesTo_inChild {step : Track α} (hstep : Moves cx b step) :
    MovesTo cx b (inChild step) fun r => Clean b r.2 :=
  movesTo_inState (fun _ _ => ⟨rfl, rfl⟩) (fun _ => rfl) hstep

theorem moves_mergeBack {delta : Layer} (h : Clean b delta) (discard : Option ScopeId) :
    Moves cx b (mergeBack delta discard) := by
  intro p
  obtain ⟨-, -, hdead, -⟩ := p.state.mergeBack_rest cx.scopes delta discard
  refine Advances.withMerged (p.state.mergeBack_merged cx.scopes delta discard) (fun hd => ?_)
    (fun he => ?_) fun v hv => p.state.mergeBack_untouched cx.scopes discard (h.lacks v hv)
  · exact hdead.trans (by rw [show p.state.top.dead = true from hd]; rfl)
  · exact hdead.trans (by rw [h.alive he, Bool.or_false]; rfl)

theorem moves_merging {merge : ScopeTree → State → Escaping State} (parts : List Written)
    (hmerged : ∀ s, Escaping.Gives (merge cx.scopes s) fun t => State.Merged s t parts ∧
      (s.top.dead = true → t.top.dead = true) ∧ (¬b.ends → t.top.dead = s.top.dead))
    (hvars : ∀ s v, ¬b.vars v → Escaping.Gives (merge cx.scopes s) (State.Untouched v s)) :
    Moves cx b (merging merge) := by
  intro p
  obtain ⟨hm, hdead, halive⟩ := hmerged p.state p.escaped
  have h : Advances cx.scopes b p _ :=
    Advances.withMerged hm hdead halive fun v hv => hvars p.state v hv p.escaped
  exact { h with }

theorem moves_mergeOr {a d : Layer} (ha : Clean b a) (hd : Clean b d) :
    Moves cx b (mergeOr a d) := by
  refine moves_merging [d.written, a.written] (fun s esc => ?_) fun s v hv =>
    s.mergeOr_untouched cx.scopes (ha.lacks v hv) (hd.lacks v hv)
  obtain ⟨hm, hdead⟩ := s.mergeOr_merged cx.scopes a d esc
  refine ⟨hm, fun hs => ?_, fun he => ?_⟩
  · rw [hdead, hs]
    rfl
  · rw [hdead, ha.alive he, Bool.false_and, Bool.or_false]

theorem moves_mergeMaybe {delta : Layer} (h : Clean b delta) :
    Moves cx b (mergeMaybe delta) := by
  refine moves_merging [delta.written] (fun s esc => ?_) fun s v hv =>
    s.mergeMaybe_untouched cx.scopes (h.lacks v hv)
  obtain ⟨hm, hdead⟩ := s.mergeMaybe_merged cx.scopes delta esc
  exact ⟨hm, fun hd => hdead.trans hd, fun _ => hdead⟩

theorem moves_mergeUnsure {w : Written} (h : CleanUnion b w) :
    Moves cx b (mergeUnsure w) := by
  refine moves_merging [w] (fun s esc => ?_) fun s v hv =>
    s.mergeUnsure_untouched cx.scopes (h v hv)
  obtain ⟨hm, hdead⟩ := s.mergeUnsure_merged cx.scopes w esc
  exact ⟨hm, fun hd => hdead.trans hd, fun _ => hdead⟩

theorem moves_unsure {body : Track Unit} (h : Moves cx b body) :
    Moves cx b (unsure body) :=
  (movesTo_inChild h).bind fun _ hdelta => moves_mergeUnsure hdelta.union

theorem movesTo_giveUp {acc : Written} (h : CleanUnion b acc) :
    MovesTo cx b (giveUp acc) (CleanUnion b) := by
  refine Moves.bind_to (Moves.forIn (fun e _ => ?_) _ _) fun _ =>
    Moves.bind_to (Moves.forIn (fun e _ => ?_) _ _) fun _ => MovesTo.pure fun v hv => ?_
  · exact (moves_escape _).bind fun _ => Moves.pure _
  · exact (moves_escape _).bind fun _ => Moves.pure _
  · rw [Std.TreeMap.getElem?_map, h v hv]
    rfl

theorem movesTo_rounds {body : Track Unit} (set : VarSet) (h : Moves cx b body) (n : Nat)
    {acc : Written} (hacc : CleanUnion b acc) :
    MovesTo cx b (rounds set body n acc) (CleanUnion b) := by
  induction n generalizing acc with
  | zero => exact movesTo_giveUp hacc
  | succ n ih =>
    refine (movesTo_inState (fun _ _ => ⟨rfl, rfl⟩) (fun _ => rfl) h).bind_to fun r hr => ?_
    have hnext : CleanUnion b (acc.absorb r.2.written).1 := fun v hv =>
      (Written.absorb_of_none acc _ (hr.union v hv)).trans (hacc v hv)
    dsimp only
    split
    · exact ih hnext
    · exact MovesTo.pure hnext

theorem moves_loop {body : Track Unit} (set : VarSet) (h : Moves cx b body) :
    Moves cx b (loop set body) :=
  (movesTo_rounds set h maxRounds fun _ _ => rfl).bind fun _ hacc => moves_mergeUnsure hacc

end

end Track

end EsOptimizer
