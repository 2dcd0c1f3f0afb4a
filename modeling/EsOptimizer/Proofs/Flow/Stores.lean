import EsOptimizer.Proofs.Flow.Blocks

/-!
# What code stores

`Acts s log t` says that code leads from the state `s` to the state `t` and stores what is in `log`
on the way. It may set variables and put objects, follow code in children and in rounds of loops,
and merge those in any of the ways there are; nothing is said about how it decides what to do.
`During` says the same of a moment in between, at which the code may be inside a child or a round.

Whatever code stores is held by the union of what was written in the end, and what it does not store
is as it was (`Acts.accounts`). So at every moment a variable that a loop writes is unknown until the
code sets it, and an object that changes in a loop is dirty until the code puts it
(`During.lookup_unknown`, `During.lookupObject_changing`).
-/

namespace EsOptimizer

/-- Something that code stores. -/
inductive Store where
  /-- A value in a variable, from which some references may be reached then. -/
  | value (v : VarId) (x : Value) (refs : RefSet)
  /-- A version of an object. -/
  | version (r : Reference) (o : HeapObject)

namespace Store

/-- Something was stored in a variable. -/
def Sets (log : List Store) (v : VarId) : Prop := ∃ x refs, value v x refs ∈ log

/-- A version of an object was put. -/
def Puts (log : List Store) (r : Reference) : Prop := ∃ o, version r o ∈ log

theorem sets_append {log log' : List Store} {v : VarId} :
    Sets (log ++ log') v ↔ Sets log v ∨ Sets log' v := by
  simp only [Sets, List.mem_append, exists_or]

theorem puts_append {log log' : List Store} {r : Reference} :
    Puts (log ++ log') r ↔ Puts log r ∨ Puts log' r := by
  simp only [Puts, List.mem_append, exists_or]

/-- What it adds to a union. -/
def written : Store → Written
  | value v x refs => .ofValue v x refs
  | version r o => .ofObject r o

end Store

/-- A union holds all that its parts hold, and has only what some part has. -/
structure Written.Unites (union : Written) (parts : List Written) : Prop where
  holds : ∀ w ∈ parts, w.HeldBy union
  vars : ∀ v : VarId, (∀ w ∈ parts, w.vars[v]? = none) → union.vars[v]? = none
  heap : ∀ r : Reference, (∀ w ∈ parts, w.heap[r]? = none) → union.heap[r]? = none

/-- A round of a loop. -/
structure Round where
  boundary : Boundary
  log : List Store
  stop : State

/-! ## Code -/

/-- Code that leads from one state to another, and what it stores. -/
inductive Acts (scopes : ScopeTree) : State → List Store → State → Prop
  | done (s : State) : Acts scopes s [] s
  | set (s : State) (v : VarId) (x : Value) :
    Acts scopes s [.value v x ((s.setValue v x).reachOf v)] (s.setValue v x)
  | put (s : State) (r : Reference) (o : HeapObject) :
    Acts scopes s [.version r o] (s.putObject r o)
  | stop (s : State) : Acts scopes s [] s.markDead
  | seq {s t u : State} {log log' : List Store} :
    Acts scopes s log t → Acts scopes t log' u → Acts scopes s (log ++ log') u
  | back {s c : State} {log : List Store} (discard : Option ScopeId) :
    Acts scopes s.child log c → Acts scopes s log (s.mergeBack scopes c.top discard)
  | either {s a b : State} {log log' : List Store} (esc : RefSet) :
    Acts scopes s.child log a → Acts scopes s.child log' b →
      Acts scopes s (log ++ log') (s.mergeOr scopes a.top b.top esc).1
  | maybe {s c : State} {log : List Store} (esc : RefSet) :
    Acts scopes s.child log c → Acts scopes s log (s.mergeMaybe scopes c.top esc).1
  | unsure {s c : State} {log : List Store} (esc : RefSet) :
    Acts scopes s.child log c → Acts scopes s log (s.mergeUnsure scopes c.top.written esc).1
  | loop {s : State} {rounds : List Round} {union : Written} (esc : RefSet) :
    (∀ x ∈ rounds, Acts scopes (s.round x.boundary) x.log x.stop) →
      union.Unites (rounds.map fun x => x.stop.top.written) →
        Acts scopes s (rounds.flatMap (·.log)) (s.mergeUnsure scopes union esc).1

/-- A moment on the way of code, and what it stored on the way there. -/
inductive During (scopes : ScopeTree) : State → List Store → State → Prop
  | here {s t : State} {log : List Store} : Acts scopes s log t → During scopes s log t
  | child {s t m : State} {log log' : List Store} :
    Acts scopes s log t → During scopes t.child log' m → During scopes s (log ++ log') m
  | round {s t m : State} {log log' : List Store} (boundary : Boundary) :
    Acts scopes s log t → During scopes (t.round boundary) log' m →
      During scopes s (log ++ log') m

/-! ## Objects that no code put -/

/-- A piece of code put no version of an object. -/
structure Layer.LacksObject (l : Layer) (r : Reference) : Prop where
  heap : l.heap[r]? = none
  written : l.written.heap[r]? = none

namespace State

open Escaping

/-- What the top layer has of an object is the same in both states. -/
structure UntouchedObject (r : Reference) (s t : State) : Prop where
  heap : t.top.heap[r]? = s.top.heap[r]?
  written : t.top.written.heap[r]? = s.top.written.heap[r]?

namespace UntouchedObject

variable {r : Reference} {s t u : State}

theorem refl (r : Reference) (s : State) : UntouchedObject r s s := ⟨rfl, rfl⟩

theorem trans (hst : UntouchedObject r s t) (htu : UntouchedObject r t u) : UntouchedObject r s u :=
  ⟨htu.heap.trans hst.heap, htu.written.trans hst.written⟩

theorem foldl {α : Type} {f : State → α → State} {items : List α}
    (h : ∀ a ∈ items, ∀ s, UntouchedObject r s (f s a)) (s : State) :
    UntouchedObject r s (items.foldl f s) := by
  induction items generalizing s with
  | nil => exact refl r s
  | cons a rest ih =>
    exact (h a List.mem_cons_self s).trans (ih (fun b hb => h b (List.mem_cons_of_mem _ hb)) _)

end UntouchedObject

section

variable {r : Reference}

theorem SameObjects.untouchedObject {s t : State} (h : SameObjects s t) :
    UntouchedObject r s t :=
  ⟨by rw [h.heap], by rw [h.written]⟩

theorem absorb_untouchedObject (s : State) {w : Written} (h : w.heap[r]? = none) :
    UntouchedObject r s (s.absorb w) :=
  ⟨rfl, (Written.absorb_heap_at s.top.written w r).trans (by rw [h, Option.merge_none_right])⟩

theorem putVersion_untouchedObject (s : State) {q : Reference} (o : HeapObject) (h : q ≠ r) :
    UntouchedObject r s (s.putVersion q o) :=
  ⟨Objects.getElem?_insert_ref.trans (if_neg h), rfl⟩

theorem ne_of_mem_toList_heap {m : Objects} (h : m[r]? = none) {e : Reference × HeapObject}
    (he : e ∈ m.toList) : e.1 ≠ r := by
  intro heq
  rw [← heq, Objects.mem_toList.mp he] at h
  cases h

theorem mergeBack_untouchedObject (s : State) (scopes : ScopeTree) {delta : Layer}
    (discard : Option ScopeId) (h : delta.LacksObject r) :
    UntouchedObject r s (s.mergeBack scopes delta discard) := by
  unfold mergeBack
  simp only
  refine (absorb_untouchedObject s h.written).trans (UntouchedObject.trans ?_
    (UntouchedObject.foldl (fun (e : Reference × HeapObject) he s =>
      putVersion_untouchedObject s e.2 (ne_of_mem_toList_heap h.heap he)) _))
  have hvars := SameObjects.foldl (fun s (e : VarId × Value) => putValue_sameObjects s e.1 e.2)
  have hreach := SameObjects.foldl (fun s (e : VarId × RefSet) => putReach_sameObjects s e.1 e.2)
  have hdead : UntouchedObject r (s.absorb delta.written)
      ((s.absorb delta.written).modifyTop fun l => { l with dead := l.dead || delta.dead }) :=
    ⟨rfl, rfl⟩
  exact hdead.trans ((hvars _ _).trans (hreach _ _)).untouchedObject

theorem mergeLive_untouchedObject (s : State) (scopes : ScopeTree) {a b : Layer}
    (ha : a.LacksObject r) (hb : b.LacksObject r) :
    Gives (s.mergeLive scopes a b) (UntouchedObject r s) := by
  intro esc
  obtain ⟨u, hu, ht⟩ := gives_mergeLive_objects s scopes a b esc
  refine UntouchedObject.trans ?_ ht.untouchedObject
  refine UntouchedObject.trans ?_ (UntouchedObject.foldl (fun q hq s => ?_) u)
  · exact ((absorb_untouchedObject s ha.written).trans
      (absorb_untouchedObject _ hb.written)).trans hu.untouchedObject
  · unfold putJoinedVersion
    split
    · refine putVersion_untouchedObject s _ ?_
      rintro rfl
      rcases mem_eitherKey.mp hq with h | h
      · rw [ha.heap] at h
        cases h
      · rw [hb.heap] at h
        cases h
    · exact UntouchedObject.refl r s

theorem mergeOr_untouchedObject (s : State) (scopes : ScopeTree) {a b : Layer}
    (ha : a.LacksObject r) (hb : b.LacksObject r) :
    Gives (s.mergeOr scopes a b) (UntouchedObject r s) := by
  unfold mergeOr
  split
  · refine Gives.pure (UntouchedObject.trans
      (t := (s.absorb a.written).absorb b.written) ?_ ⟨rfl, rfl⟩)
    exact (absorb_untouchedObject s ha.written).trans (absorb_untouchedObject _ hb.written)
  · exact Gives.pure
      ((absorb_untouchedObject s ha.written).trans (mergeBack_untouchedObject _ scopes none hb))
  · exact Gives.pure
      ((absorb_untouchedObject s hb.written).trans (mergeBack_untouchedObject _ scopes none ha))
  · exact mergeLive_untouchedObject s scopes ha hb

/-- Of two pieces of code, the union of what one wrote is added first. -/
theorem mergeOr_frame (s : State) (scopes : ScopeTree) (a b : Layer) :
    Gives (s.mergeOr scopes a b) fun t =>
      SameFrame ((s.absorb a.written).absorb b.written) t ∨
        SameFrame ((s.absorb b.written).absorb a.written) t := by
  unfold mergeOr
  split
  · exact Gives.pure (Or.inl ⟨rfl, rfl, rfl⟩)
  · exact Gives.pure (Or.inl (mergeBack_frame _ scopes b none))
  · exact Gives.pure (Or.inr (mergeBack_frame _ scopes a none))
  · exact fun esc => Or.inl (mergeLive_frame s scopes a b esc)

/-- What may be reached after either of two pieces of code, could be reached before them or at the
end of one of them. -/
theorem mem_reachOf_mergeOr (s : State) (scopes : ScopeTree) {a b : Layer}
    (ha : a.boundary = none) (hb : b.boundary = none) (esc : RefSet) {v : VarId} {q : Reference}
    (h : q ∈ (s.mergeOr scopes a b esc).1.reachOf v) :
    q ∈ s.reachOf v ∨ q ∈ (s.withLayer a).reachOf v ∨ q ∈ (s.withLayer b).reachOf v := by
  have hback (c d : Layer) : ((s.absorb c.written).mergeBack scopes d none).reachOf v =
      d.reach[v]?.getD (s.reachOf v) := by
    rw [mergeBack_reachOf, if_neg (by simp), (absorb_sameReach s c.written).reachOf]
  unfold mergeOr at h
  cases hda : a.dead <;> cases hdb : b.dead <;> rw [hda, hdb] at h
  · exact Or.inr ((mergeLive_reachOf s scopes ha hb v q esc).mp h)
  · refine Or.inr (Or.inl ?_)
    rw [reachOf_withLayer ha, ← hback b a]
    exact h
  · refine Or.inr (Or.inr ?_)
    rw [reachOf_withLayer hb, ← hback a b]
    exact h
  · exact Or.inl h

theorem mergeMaybe_untouchedObject (s : State) (scopes : ScopeTree) {delta : Layer}
    (h : delta.LacksObject r) : Gives (s.mergeMaybe scopes delta) (UntouchedObject r s) := by
  intro esc
  cases hd : delta.dead with
  | true =>
    unfold mergeMaybe
    simp only [hd, if_true]
    exact absorb_untouchedObject s h.written
  | false =>
    obtain ⟨u, hu, ht⟩ := gives_mergeMaybe_objects s scopes hd esc
    refine UntouchedObject.trans ?_ ht.untouchedObject
    refine ((absorb_untouchedObject s h.written).trans hu.untouchedObject).trans
      (UntouchedObject.foldl (fun e he s => ?_) u)
    exact putVersion_untouchedObject s _ (ne_of_mem_toList_heap h.heap he)

theorem mergeUnsure_untouchedObject (s : State) (scopes : ScopeTree) {w : Written}
    (h : w.heap[r]? = none) : Gives (s.mergeUnsure scopes w) (UntouchedObject r s) := by
  intro esc
  obtain ⟨u, v, hu, hv, ht⟩ := gives_mergeUnsure_objects s scopes w esc
  rw [ht]
  refine UntouchedObject.trans ?_ (absorb_untouchedObject v h)
  refine UntouchedObject.trans ?_ hv.untouchedObject
  refine hu.untouchedObject.trans (UntouchedObject.foldl (fun e he s => ?_) u)
  unfold putUnsureVersion
  split
  · exact putVersion_untouchedObject s _ (ne_of_mem_toList_heap h he)
  · exact UntouchedObject.refl r s

end

end State

/-! ## Accounting -/

/-- Everything that is stored is held by the union afterwards, and nothing else changes. -/
structure Accounts (s : State) (log : List Store) (t : State) : Prop where
  below : t.below = s.below
  boundary : t.top.boundary = s.top.boundary
  grows : s.top.written.HeldBy t.top.written
  held : ∀ x ∈ log, x.written.HeldBy t.top.written
  reach : ∀ v, ∀ r ∈ t.reachOf v, r ∈ s.reachOf v ∨ r ∈ t.top.written.reach.getD v {}
  value : ∀ v, ¬Store.Sets log v → State.Untouched v s t
  version : ∀ r, ¬Store.Puts log r → State.UntouchedObject r s t

namespace Accounts

open Escaping

variable {scopes : ScopeTree} {s t u : State} {log log' : List Store}

theorem done (s : State) : Accounts s [] s where
  below := rfl
  boundary := rfl
  grows := .refl _
  held _ hx := nomatch hx
  reach _ _ := Or.inl
  value v _ := .refl v s
  version r _ := .refl r s

theorem seq (h : Accounts s log t) (h' : Accounts t log' u) : Accounts s (log ++ log') u where
  below := h'.below.trans h.below
  boundary := h'.boundary.trans h.boundary
  grows := h.grows.trans h'.grows
  held x hx := (List.mem_append.mp hx).elim (fun hx => (h.held x hx).trans h'.grows) (h'.held x)
  reach v r hr := by
    rcases h'.reach v r hr with hr | hr
    · exact (h.reach v r hr).imp id (h'.grows.reach v r)
    · exact Or.inr hr
  value v hv := by
    obtain ⟨hlog, hlog'⟩ := not_or.mp (mt Store.sets_append.mpr hv)
    exact (h.value v hlog).trans (h'.value v hlog')
  version r hr := by
    obtain ⟨hlog, hlog'⟩ := not_or.mp (mt Store.puts_append.mpr hr)
    exact (h.version r hlog).trans (h'.version r hlog')

theorem set (s : State) (v : VarId) (x : Value) :
    Accounts s [.value v x ((s.setValue v x).reachOf v)] (s.setValue v x) := by
  have hreach (u : VarId) : (s.setValue v x).reachOf u = if v = u then
      (if x.isUnknown then (RefSet.ofList x.references).union (s.reachOf v)
        else RefSet.ofList x.references) else s.reachOf u :=
    State.putReach_reachOf s v u _
  have hsame : (s.top.written.absorb (.ofValue v x ((s.setValue v x).reachOf v))).1.HeldBy
      (s.setValue v x).top.written := by
    rw [hreach, if_pos rfl]
    exact (Written.addValue_same_absorb s.top.written v x _).symm.heldBy
  have hheld := (Written.heldBy_absorb_right s.top.written _).trans hsame
  refine ⟨rfl, rfl, (Written.heldBy_absorb_left _ _).trans hsame, fun y hy => ?_,
    fun u r hr => ?_, fun u hu => ?_, fun r _ => ⟨rfl, ?_⟩⟩
  · rw [List.mem_singleton.mp hy]
    exact hheld
  · by_cases huv : v = u
    · subst huv
      refine Or.inr (hheld.reach v r ?_)
      rwa [Written.ofValue, Std.TreeMap.getD_insert_self]
    · rw [hreach, if_neg huv] at hr
      exact Or.inl hr
  · refine State.setValue_untouched s x ?_
    rintro rfl
    exact hu ⟨_, _, List.mem_singleton_self _⟩
  · change ((s.top.written.addValue v x).1.addReach v _).1.heap[r]? = _
    rw [Written.addReach_heap, Written.addValue_heap]

theorem put (s : State) (r : Reference) (o : HeapObject) :
    Accounts s [.version r o] (s.putObject r o) := by
  have hsame := (Written.addObject_same_absorb s.top.written r o).symm.heldBy
  refine ⟨rfl, rfl, (Written.heldBy_absorb_left _ _).trans hsame, fun y hy => ?_,
    fun v q hq => Or.inl hq, fun v _ => (State.putObject_sameVars s r o).untouched v,
    fun q hq => ?_⟩
  · rw [List.mem_singleton.mp hy]
    exact (Written.heldBy_absorb_right _ _).trans hsame
  · have hne : r ≠ q := by
      rintro rfl
      exact hq ⟨o, List.mem_singleton_self _⟩
    exact ⟨Objects.getElem?_insert_ref.trans (if_neg hne),
      (Written.addObject_at s.top.written r q o).trans (if_neg hne)⟩

theorem markDead (s : State) : Accounts s [] s.markDead where
  below := rfl
  boundary := rfl
  grows := .refl _
  held _ hx := nomatch hx
  reach _ _ := Or.inl
  value _ _ := ⟨rfl, rfl⟩
  version _ _ := ⟨rfl, rfl⟩

/-- In a layer of its own, code leaves nothing of a variable that it does not set. -/
theorem lacks {boundary : Option Boundary} {below : List Layer}
    (h : Accounts ⟨{ boundary }, below⟩ log t) {v : VarId} (hv : ¬Store.Sets log v) :
    t.top.Lacks v :=
  ⟨(h.value v hv).vars.trans Std.TreeMap.getElem?_emptyc,
    (h.value v hv).written.trans Std.TreeMap.getElem?_emptyc⟩

theorem lacksObject {boundary : Option Boundary} {below : List Layer}
    (h : Accounts ⟨{ boundary }, below⟩ log t) {r : Reference} (hr : ¬Store.Puts log r) :
    t.top.LacksObject r :=
  ⟨(h.version r hr).heap.trans Std.TreeMap.getElem?_emptyc,
    (h.version r hr).written.trans Std.TreeMap.getElem?_emptyc⟩

/-- What may be reached at the end of a child, could be reached before it, or the child wrote it. -/
theorem reach_withLayer (h : Accounts s.child log t) {v : VarId} {r : Reference}
    (hr : r ∈ (s.withLayer t.top).reachOf v) :
    r ∈ s.reachOf v ∨ r ∈ t.top.written.reach.getD v {} := by
  have heq : s.withLayer t.top = t := by
    obtain ⟨top, below⟩ := t
    rw [State.withLayer, ← show below = s.layers from h.below]
  rw [heq] at hr
  exact (h.reach v r hr).imp (fun hr => State.reachOf_child s v ▸ hr) id

/-! ### Merges -/

/-- A merge adds a union that holds what the merged code stored and made reachable. -/
theorem of_merge {w : Written} (hframe : State.SameFrame (s.absorb w) t)
    (hheld : ∀ x ∈ log, x.written.HeldBy w)
    (hreach : ∀ v, ∀ r ∈ t.reachOf v, r ∈ s.reachOf v ∨ r ∈ w.reach.getD v {})
    (hvalue : ∀ v, ¬Store.Sets log v → State.Untouched v s t)
    (hversion : ∀ r, ¬Store.Puts log r → State.UntouchedObject r s t) : Accounts s log t where
  below := hframe.below
  boundary := hframe.boundary
  grows := by
    rw [hframe.written]
    exact Written.heldBy_absorb_left _ _
  held x hx := by
    rw [hframe.written]
    exact (hheld x hx).trans (Written.heldBy_absorb_right _ _)
  reach v r hr := by
    rw [hframe.written]
    exact (hreach v r hr).imp id ((Written.heldBy_absorb_right s.top.written w).reach v r)
  value := hvalue
  version := hversion

theorem mergeBack {c : State} (h : Accounts s.child log c) (discard : Option ScopeId) :
    Accounts s log (s.mergeBack scopes c.top discard) := by
  refine of_merge (State.mergeBack_frame s scopes c.top discard) h.held (fun v r hr => ?_)
    (fun _ hv => State.mergeBack_untouched s scopes discard (h.lacks hv))
    fun _ hr => State.mergeBack_untouchedObject s scopes discard (h.lacksObject hr)
  rw [State.mergeBack_reachOf] at hr
  split at hr
  · exact Or.inl hr
  · exact h.reach_withLayer (by rwa [State.reachOf_withLayer h.boundary])

theorem mergeMaybe {c : State} (h : Accounts s.child log c) :
    Gives (s.mergeMaybe scopes c.top) (Accounts s log) := by
  intro esc
  refine of_merge (State.mergeMaybe_frame s scopes c.top esc) h.held (fun v r hr => ?_)
    (fun _ hv => State.mergeMaybe_untouched s scopes (h.lacks hv) esc)
    fun _ hr => State.mergeMaybe_untouchedObject s scopes (h.lacksObject hr) esc
  rcases (State.mergeMaybe_reachOf s scopes h.boundary v r esc).mp hr with hr | ⟨-, hr⟩
  · exact Or.inl hr
  · exact h.reach_withLayer hr

theorem mergeUnsure {w : Written} (hheld : ∀ x ∈ log, x.written.HeldBy w)
    (hvars : ∀ v, ¬Store.Sets log v → w.vars[v]? = none)
    (hheap : ∀ r, ¬Store.Puts log r → w.heap[r]? = none) :
    Gives (s.mergeUnsure scopes w) (Accounts s log) := fun esc =>
  of_merge (State.mergeUnsure_frame s scopes w esc) hheld
    (fun v r => (State.mergeUnsure_reachOf s scopes w v r esc).mp)
    (fun v hv => State.mergeUnsure_untouched s scopes (hvars v hv) esc)
    fun r hr => State.mergeUnsure_untouchedObject s scopes (hheap r hr) esc

/-- A merge of two pieces of code adds both unions, one after the other. -/
theorem of_merge_both {w w' : Written} (hframe : State.SameFrame ((s.absorb w).absorb w') t)
    (hheld : ∀ x ∈ log, x.written.HeldBy w ∨ x.written.HeldBy w')
    (hreach : ∀ v, ∀ r ∈ t.reachOf v,
      r ∈ s.reachOf v ∨ r ∈ w.reach.getD v {} ∨ r ∈ w'.reach.getD v {})
    (hvalue : ∀ v, ¬Store.Sets log v → State.Untouched v s t)
    (hversion : ∀ r, ¬Store.Puts log r → State.UntouchedObject r s t) : Accounts s log t := by
  have hfirst : w.HeldBy t.top.written := by
    rw [hframe.written]
    exact (Written.heldBy_absorb_right s.top.written w).trans (Written.heldBy_absorb_left _ _)
  have hsecond : w'.HeldBy t.top.written := by
    rw [hframe.written]
    exact Written.heldBy_absorb_right _ _
  refine ⟨hframe.below, hframe.boundary, ?_, fun x hx => ?_, fun v r hr => ?_, hvalue, hversion⟩
  · rw [hframe.written]
    exact (Written.heldBy_absorb_left _ _).trans (Written.heldBy_absorb_left _ _)
  · exact (hheld x hx).elim (·.trans hfirst) (·.trans hsecond)
  · exact (hreach v r hr).imp id (·.elim (hfirst.reach v r) (hsecond.reach v r))

theorem mergeOr {a b : State} (ha : Accounts s.child log a) (hb : Accounts s.child log' b) :
    Gives (s.mergeOr scopes a.top b.top) (Accounts s (log ++ log')) := by
  intro esc
  have hheld : ∀ x ∈ log ++ log', x.written.HeldBy a.top.written ∨
      x.written.HeldBy b.top.written :=
    fun x hx => (List.mem_append.mp hx).imp (ha.held x) (hb.held x)
  have hreach : ∀ v, ∀ r ∈ (s.mergeOr scopes a.top b.top esc).1.reachOf v, r ∈ s.reachOf v ∨
      r ∈ a.top.written.reach.getD v {} ∨ r ∈ b.top.written.reach.getD v {} := by
    intro v r hr
    rcases State.mem_reachOf_mergeOr s scopes ha.boundary hb.boundary esc hr with hr | hr | hr
    · exact Or.inl hr
    · exact (ha.reach_withLayer hr).imp id Or.inl
    · exact (hb.reach_withLayer hr).imp id Or.inr
  have hvalue : ∀ v, ¬Store.Sets (log ++ log') v →
      State.Untouched v s (s.mergeOr scopes a.top b.top esc).1 := by
    intro v hv
    obtain ⟨hlog, hlog'⟩ := not_or.mp (mt Store.sets_append.mpr hv)
    exact State.mergeOr_untouched s scopes (ha.lacks hlog) (hb.lacks hlog') esc
  have hversion : ∀ r, ¬Store.Puts (log ++ log') r →
      State.UntouchedObject r s (s.mergeOr scopes a.top b.top esc).1 := by
    intro r hr
    obtain ⟨hlog, hlog'⟩ := not_or.mp (mt Store.puts_append.mpr hr)
    exact State.mergeOr_untouchedObject s scopes (ha.lacksObject hlog) (hb.lacksObject hlog') esc
  rcases State.mergeOr_frame s scopes a.top b.top esc with hframe | hframe
  · exact of_merge_both hframe hheld hreach hvalue hversion
  · exact of_merge_both hframe (fun x hx => (hheld x hx).symm)
      (fun v r hr => (hreach v r hr).imp id Or.symm) hvalue hversion

end Accounts

/-- Code accounts for what it stores. -/
theorem Acts.accounts {scopes : ScopeTree} {s t : State} {log : List Store}
    (h : Acts scopes s log t) : Accounts s log t := by
  induction h with
  | done s => exact .done s
  | set s v x => exact .set s v x
  | put s r o => exact .put s r o
  | stop s => exact .markDead s
  | seq _ _ ih ih' => exact ih.seq ih'
  | back discard _ ih => exact ih.mergeBack discard
  | either esc _ _ ih ih' => exact ih.mergeOr ih' esc
  | maybe esc _ ih => exact ih.mergeMaybe esc
  | unsure esc _ ih =>
    exact Accounts.mergeUnsure ih.held (fun v hv => (ih.lacks hv).written)
      (fun r hr => (ih.lacksObject hr).written) esc
  | @loop s rounds union esc _ hunion ih =>
    have hpart {x : Round} (hx : x ∈ rounds) :
        x.stop.top.written ∈ rounds.map fun x => x.stop.top.written := List.mem_map_of_mem hx
    refine Accounts.mergeUnsure (fun y hy => ?_) (fun v hv => hunion.vars v ?_)
      (fun r hr => hunion.heap r ?_) esc
    · obtain ⟨x, hx, hy⟩ := List.mem_flatMap.mp hy
      exact ((ih x hx).held y hy).trans (hunion.holds _ (hpart hx))
    · rintro w hw
      obtain ⟨x, hx, rfl⟩ := List.mem_map.mp hw
      refine ((ih x hx).lacks fun ⟨y, refs, hy⟩ => hv ⟨y, refs, ?_⟩).written
      exact List.mem_flatMap.mpr ⟨x, hx, hy⟩
    · rintro w hw
      obtain ⟨x, hx, rfl⟩ := List.mem_map.mp hw
      refine ((ih x hx).lacksObject fun ⟨o, ho⟩ => hr ⟨o, ?_⟩).written
      exact List.mem_flatMap.mpr ⟨x, hx, ho⟩

/-! ## Moments -/

section

variable {scopes : ScopeTree} {s t m : State} {log : List Store}

theorem Accounts.lookup (h : Accounts s log t) {v : VarId} (hv : ¬Store.Sets log v) :
    t.lookup v = s.lookup v := by
  rw [State.lookup_eq, State.lookup_eq, (h.value v hv).vars, h.below, Layer.bounds, Layer.bounds,
    h.boundary]

theorem Accounts.lookupObject (h : Accounts s log t) {r : Reference} (hr : ¬Store.Puts log r) :
    t.lookupObject r = s.lookupObject r := by
  rw [State.lookupObject_eq, State.lookupObject_eq, (h.version r hr).heap, h.below,
    Layer.boundsObject, Layer.boundsObject, h.boundary]

theorem State.lookupObject_round (s : State) (b : Boundary) (r : Reference) :
    (s.round b).lookupObject r = if b.refs.contains r then .changing else s.lookupObject r := by
  rw [lookupObject_eq]
  rfl

/-- A variable that is unknown where code starts is unknown until the code sets it. -/
theorem During.lookup_unknown (h : During scopes s log m) {v : VarId}
    (hs : s.lookup v = some .unknown) (hv : ¬Store.Sets log v) : m.lookup v = some .unknown := by
  induction h with
  | here h =>
    rw [h.accounts.lookup hv]
    exact hs
  | child h _ ih =>
    obtain ⟨hlog, hlog'⟩ := not_or.mp (mt Store.sets_append.mpr hv)
    refine ih ?_ hlog'
    rw [State.lookup_child, h.accounts.lookup hlog]
    exact hs
  | round b h _ ih =>
    obtain ⟨hlog, hlog'⟩ := not_or.mp (mt Store.sets_append.mpr hv)
    refine ih ?_ hlog'
    rw [State.lookup_round]
    split
    · rfl
    · rw [h.accounts.lookup hlog]
      exact hs

/-- An object that changes where code starts is dirty until the code puts it. -/
theorem During.lookupObject_changing (h : During scopes s log m) {r : Reference}
    (hs : s.lookupObject r = .changing) (hr : ¬Store.Puts log r) : m.lookupObject r = .changing := by
  induction h with
  | here h =>
    rw [h.accounts.lookupObject hr]
    exact hs
  | child h _ ih =>
    obtain ⟨hlog, hlog'⟩ := not_or.mp (mt Store.puts_append.mpr hr)
    refine ih ?_ hlog'
    rw [State.lookupObject_child, h.accounts.lookupObject hlog]
    exact hs
  | round b h _ ih =>
    obtain ⟨hlog, hlog'⟩ := not_or.mp (mt Store.puts_append.mpr hr)
    refine ih ?_ hlog'
    rw [State.lookupObject_round]
    split
    · rfl
    · rw [h.accounts.lookupObject hlog]
      exact hs

end

end EsOptimizer
