import EsOptimizer.Proofs.Flow.Versions

/-!
# Every state in between

Code that may stop anywhere is merged through the union of all that it wrote. A value or a version
that such code has at some moment need not be in that union: a branch joins what it wrote with what
was there before, and a branch that never ends leaves no value at all. What holds at every moment is
`Covered`: nothing is above the join of what the code around knew and of what was written so far
(`bound`, `boundVersion`).

`Covered.keeps_run` shows that the steps of a child state and all ways of merging its own children
keep it so, by induction on the steps. `mergeUnsure_covers_run` draws the conclusion for a merge.
-/

namespace EsOptimizer

/-! ## Growing unions -/

/-- All that was written is still there, or something greater. -/
structure Written.Below (w w' : Written) : Prop where
  vars : Values.Below w.vars w'.vars
  heap : Objects.Below w.heap w'.heap

namespace Written

theorem Below.refl (w : Written) : Below w w := ⟨Values.Below.refl _, Objects.Below.refl _⟩

theorem Below.trans {w w' w'' : Written} (h : Below w w') (h' : Below w' w'') : Below w w'' :=
  ⟨h.vars.trans h'.vars, h.heap.trans h'.heap⟩

theorem below_absorb_left (w other : Written) : Below w (w.absorb other).1 :=
  ⟨(absorb_vars w other).1, (absorb_heap w other).1⟩

theorem below_absorb_right (w other : Written) : Below other (w.absorb other).1 :=
  ⟨(absorb_vars w other).2, (absorb_heap w other).2⟩

end Written

/-- Of two versions that may be missing, everything that `a` allows, `b` allows. -/
def VersionBelow (a b : Option HeapObject) : Prop :=
  ∀ o, a = some o → ∃ p, b = some p ∧ o.Below p

namespace VersionBelow

theorem refl (a : Option HeapObject) : VersionBelow a a := fun o h => ⟨o, h, HeapObject.Below.refl o⟩

theorem trans {a b c : Option HeapObject} (hab : VersionBelow a b) (hbc : VersionBelow b c) :
    VersionBelow a c := by
  intro o ho
  obtain ⟨p, hp, hop⟩ := hab o ho
  obtain ⟨q, hq, hpq⟩ := hbc p hp
  exact ⟨q, hq, hop.trans hpq⟩

theorem join_left (a b : Option HeapObject) : VersionBelow a (joinVersion a b) := by
  rintro o rfl
  cases b with
  | none => exact ⟨o, rfl, HeapObject.Below.refl o⟩
  | some p => exact ⟨_, rfl, HeapObject.below_or_left o p⟩

theorem join_right (a b : Option HeapObject) : VersionBelow b (joinVersion a b) := by
  rintro o rfl
  cases a with
  | none => exact ⟨o, rfl, HeapObject.Below.refl o⟩
  | some p => exact ⟨_, rfl, HeapObject.below_or_right p o⟩

theorem join {a b c : Option HeapObject} (ha : VersionBelow a c) (hb : VersionBelow b c) :
    VersionBelow (joinVersion a b) c := by
  intro o ho
  cases a with
  | none =>
    cases b with
    | none => cases ho
    | some q =>
      exact hb o ho
  | some p =>
    obtain ⟨z, hz, hpz⟩ := ha p rfl
    cases b with
    | none =>
      cases ho
      exact ⟨z, hz, hpz⟩
    | some q =>
      cases ho
      obtain ⟨z', hz', hqz⟩ := hb q rfl
      rw [hz] at hz'
      cases hz'
      exact ⟨z, hz, HeapObject.or_below hpz hqz⟩

theorem of_beq {a b : Option HeapObject} (h : (a == b) = true) :
    VersionBelow a b ∧ VersionBelow b a := by
  cases a with
  | none =>
    cases b with
    | none => exact ⟨refl none, refl none⟩
    | some p => cases h
  | some o =>
    cases b with
    | none => cases h
    | some p =>
      obtain ⟨hop, hpo⟩ := HeapObject.beq_iff_below.mp h
      exact ⟨fun _ ho => ⟨p, rfl, Option.some.inj ho ▸ hop⟩,
        fun _ hp => ⟨o, rfl, Option.some.inj hp ▸ hpo⟩⟩

end VersionBelow

/-! ## Steps on a state -/

/-- What may happen to a state. Children are followed by steps of their own, and merged. -/
inductive Step where
  | set (v : VarId) (value : Value)
  | put (r : Reference) (o : HeapObject)
  | stop
  | back (steps : List Step) (discard : Option ScopeId)
  | either (first second : List Step)
  | maybe (steps : List Step)
  | unsure (steps : List Step)

mutual

def Step.run (scopes : ScopeTree) : Step → State → Escaping State
  | .set v value, s => return s.setValue v value
  | .put r o, s => return s.putObject r o
  | .stop, s => return s.markDead
  | .back steps discard, s => do
    let c ← Step.runAll scopes steps s.child
    return s.mergeBack scopes c.top discard
  | .either first second, s => do
    let a ← Step.runAll scopes first s.child
    let b ← Step.runAll scopes second s.child
    s.mergeOr scopes a.top b.top
  | .maybe steps, s => do
    let c ← Step.runAll scopes steps s.child
    s.mergeMaybe scopes c.top
  | .unsure steps, s => do
    let c ← Step.runAll scopes steps s.child
    s.mergeUnsure scopes c.top.written

def Step.runAll (scopes : ScopeTree) : List Step → State → Escaping State
  | [], s => return s
  | step :: rest, s => do
    let t ← step.run scopes s
    Step.runAll scopes rest t

end

namespace State

open Escaping

/-! ## What a child can know at most -/

/-- The join of what was known of a variable and of all that was written to it. -/
def bound (scopes : ScopeTree) (s : State) (w : Written) (v : VarId) : Value :=
  match w.vars[v]? with
  | some x => (s.current scopes v).or x
  | none => s.current scopes v

/-- The join of what was known of an object and of all versions that were put. -/
def boundVersion (s : State) (w : Written) (r : Reference) : Option HeapObject :=
  joinVersion (s.object? r) w.heap[r]?

section Bounds

variable {scopes : ScopeTree} {s : State} {w w' : Written} {v : VarId} {r : Reference}

theorem current_below_bound (scopes : ScopeTree) (s : State) (w : Written) (v : VarId) :
    (s.current scopes v).Below (s.bound scopes w v) := by
  unfold bound
  split
  · exact Value.below_or_left _ _
  · exact Value.Below.refl _

theorem written_below_bound {x : Value} (h : w.vars[v]? = some x) :
    x.Below (s.bound scopes w v) := by
  unfold bound
  rw [h]
  exact Value.below_or_right _ _

theorem bound_below {z : Value} (hs : (s.current scopes v).Below z)
    (hw : ∀ x, w.vars[v]? = some x → x.Below z) : (s.bound scopes w v).Below z := by
  unfold bound
  split
  · rename_i x hx
    exact Value.or_below hs (hw x hx)
  · exact hs

theorem bound_mono (h : w.Below w') : (s.bound scopes w v).Below (s.bound scopes w' v) := by
  refine bound_below (current_below_bound scopes s w' v) fun x hx => ?_
  obtain ⟨y, hy, hxy⟩ := h.vars v x hx
  exact hxy.trans (written_below_bound hy)

theorem written_below_boundVersion (h : w.Below w') :
    VersionBelow w.heap[r]? (s.boundVersion w' r) := by
  intro o ho
  obtain ⟨p, hp, hop⟩ := h.heap r o ho
  obtain ⟨q, hq, hpq⟩ := VersionBelow.join_right (s.object? r) w'.heap[r]? p hp
  exact ⟨q, hq, hop.trans hpq⟩

theorem boundVersion_mono (h : w.Below w') :
    VersionBelow (s.boundVersion w r) (s.boundVersion w' r) :=
  VersionBelow.join (VersionBelow.join_left _ _) (written_below_boundVersion h)

/-- A merge through what was written gives no more than the bound. -/
theorem mergeUnsure_bound (s : State) (scopes : ScopeTree) (w : Written) (v : VarId) :
    Gives (s.mergeUnsure scopes w) fun t => (t.current scopes v).Below (s.bound scopes w v) := by
  intro esc
  have hlookup := mergeUnsure_lookup s scopes w v esc
  set t := (s.mergeUnsure scopes w esc).1
  cases hx : w.vars[v]? with
  | none =>
    rw [hx] at hlookup
    rw [current_congr scopes hlookup]
    exact current_below_bound scopes s w v
  | some x =>
    rw [hx] at hlookup
    simp only at hlookup
    split at hlookup
    · rw [current_of_lookup scopes hlookup, bound, hx]
      exact Value.Below.refl _
    · rw [current_congr scopes hlookup]
      exact current_below_bound scopes s w v

end Bounds

/-- The state is one of a child of `base`, and what it knows is bounded by what `base` knows and by
what was written. -/
structure Covered (scopes : ScopeTree) (base c : State) : Prop where
  below : c.below = base.layers
  boundary : c.top.boundary = none
  value : ∀ v, (c.current scopes v).Below (base.bound scopes c.top.written v)
  version : ∀ r, VersionBelow (c.object? r) (base.boundVersion c.top.written r)

namespace Covered

variable {scopes : ScopeTree} {base c d : State}

theorem child (scopes : ScopeTree) (base : State) : Covered scopes base base.child where
  below := rfl
  boundary := rfl
  value v := by
    rw [current_child]
    exact current_below_bound scopes base _ v
  version r := by
    rw [object?_child]
    exact VersionBelow.join_left _ _

/-- The child is its layer on top of what is around it. -/
theorem eq_withLayer (h : Covered scopes base c) : c = base.withLayer c.top := by
  obtain ⟨top, below⟩ := c
  rw [withLayer, ← h.below]

theorem current_eq (h : Covered scopes base c) (v : VarId) :
    c.current scopes v = c.top.vars.getD v (base.current scopes v) := by
  rw [← current_withLayer h.boundary, ← h.eq_withLayer]

theorem object?_eq (h : Covered scopes base c) (r : Reference) :
    c.object? r = c.top.heap[r]?.or (base.object? r) := by
  rw [← object?_withLayer h.boundary, ← h.eq_withLayer]

/-- What a child of a child knows is bounded from further out as well. -/
theorem value_through (hc : Covered scopes base c) (hd : Covered scopes c d) {w : Written}
    (hcw : c.top.written.Below w) (hdw : d.top.written.Below w) (v : VarId) :
    (d.current scopes v).Below (base.bound scopes w v) := by
  refine (hd.value v).trans (bound_below ((hc.value v).trans (bound_mono hcw)) fun x hx => ?_)
  obtain ⟨y, hy, hxy⟩ := hdw.vars v x hx
  exact hxy.trans (written_below_bound hy)

theorem version_through (hc : Covered scopes base c) (hd : Covered scopes c d) {w : Written}
    (hcw : c.top.written.Below w) (hdw : d.top.written.Below w) (r : Reference) :
    VersionBelow (d.object? r) (base.boundVersion w r) :=
  (hd.version r).trans (VersionBelow.join ((hc.version r).trans (boundVersion_mono hcw))
    (written_below_boundVersion hdw))

/-! ## Steps -/

/-- A step keeps what the child knows bounded, and what was written only grows. -/
structure Keeps (scopes : ScopeTree) (base c c' : State) : Prop where
  covered : Covered scopes base c'
  grows : c.top.written.Below c'.top.written

/-- A merge that leaves the places of the state alone keeps it covered if all that it knows
afterwards is bounded. -/
theorem keeps_of_frame (hc : Covered scopes base c) {w : Written} {c' : State}
    (hframe : SameFrame (c.absorb w) c')
    (hvalue : ∀ v, (c'.current scopes v).Below (base.bound scopes c'.top.written v))
    (hversion : ∀ r, VersionBelow (c'.object? r) (base.boundVersion c'.top.written r)) :
    Keeps scopes base c c' where
  covered := ⟨hframe.below.trans hc.below, hframe.boundary.trans hc.boundary, hvalue, hversion⟩
  grows := by
    rw [hframe.written]
    exact Written.below_absorb_left _ _

theorem setValue (hc : Covered scopes base c) (v : VarId) (x : Value) :
    Keeps scopes base c (c.setValue v x) := by
  have hwritten : c.top.written.Below (c.setValue v x).top.written :=
    ⟨(setValue_written c v x).1, by
      change Objects.Below _ (((c.top.written.addValue v x).1.addReach v _).1).heap
      rw [Written.addReach_heap, Written.addValue_heap]
      exact Objects.Below.refl _⟩
  refine ⟨⟨hc.below, hc.boundary, fun u => ?_, fun r => ?_⟩, hwritten⟩
  · by_cases huv : v = u
    · subst huv
      obtain ⟨y, hy, hxy⟩ := (setValue_written c v x).2
      rw [current_of_lookup scopes ((setValue_lookup c v v x).trans (if_pos rfl))]
      exact hxy.trans (written_below_bound hy)
    · rw [current_congr scopes ((setValue_lookup c v u x).trans (if_neg huv))]
      exact (hc.value u).trans (bound_mono hwritten)
  · rw [setValue_object]
    exact (hc.version r).trans (boundVersion_mono hwritten)

theorem putObject (hc : Covered scopes base c) (r : Reference) (o : HeapObject) :
    Keeps scopes base c (c.putObject r o) := by
  obtain ⟨hheap, p, hp, hop⟩ := Written.addObject_heap c.top.written r o
  have hwritten : c.top.written.Below (c.putObject r o).top.written :=
    ⟨by
      change Values.Below _ (c.top.written.addObject r o).1.vars
      rw [Written.addObject_vars]
      exact Values.Below.refl _, hheap⟩
  refine ⟨⟨hc.below, hc.boundary, fun v => ?_, fun q => ?_⟩, hwritten⟩
  · rw [(putObject_sameVars c r o).current]
    exact (hc.value v).trans (bound_mono hwritten)
  · rw [putObject_object]
    split
    · rename_i hrq
      subst hrq
      intro o' ho'
      cases ho'
      obtain ⟨z, hz, hpz⟩ :=
        VersionBelow.join_right (base.object? r) (c.putObject r o).top.written.heap[r]? p hp
      exact ⟨z, hz, hop.trans hpz⟩
    · exact (hc.version q).trans (boundVersion_mono hwritten)

theorem markDead (hc : Covered scopes base c) : Keeps scopes base c c.markDead :=
  ⟨⟨hc.below, hc.boundary, hc.value, hc.version⟩, Written.Below.refl _⟩

theorem absorb (hc : Covered scopes base c) (w : Written) : Keeps scopes base c (c.absorb w) := by
  have hgrows : c.top.written.Below (c.absorb w).top.written := Written.below_absorb_left _ _
  refine ⟨⟨hc.below, hc.boundary, fun v => ?_, fun r => ?_⟩, hgrows⟩
  · exact (hc.value v).trans (bound_mono hgrows)
  · exact (hc.version r).trans (boundVersion_mono hgrows)

/-! ## Merges -/

theorem mergeBack (hc : Covered scopes base c) (hd : Covered scopes c d)
    (discard : Option ScopeId) : Keeps scopes base c (c.mergeBack scopes d.top discard) := by
  have hframe := mergeBack_frame c scopes d.top discard
  have hcw : c.top.written.Below (c.mergeBack scopes d.top discard).top.written := by
    rw [hframe.written]
    exact Written.below_absorb_left _ _
  have hdw : d.top.written.Below (c.mergeBack scopes d.top discard).top.written := by
    rw [hframe.written]
    exact Written.below_absorb_right _ _
  refine hc.keeps_of_frame hframe (fun v => ?_) fun r => ?_
  · by_cases hdiscard : discard = some (scopes.var v).scope
    · have hlookup := mergeBack_lookup c scopes d.top discard v
      rw [if_pos hdiscard] at hlookup
      rw [current_congr scopes hlookup]
      exact (hc.value v).trans (bound_mono hcw)
    · rw [mergeBack_current c hd.boundary hdiscard, ← hd.eq_withLayer]
      exact hc.value_through hd hcw hdw v
  · rw [mergeBack_object c scopes hd.boundary, ← hd.eq_withLayer]
    exact hc.version_through hd hcw hdw r

/-- What the end of a branch knows, if the other branch does not come to its end. -/
theorem mergeBack_beside (hc : Covered scopes base c) (hd : Covered scopes c d) (w : Written) :
    Keeps scopes base c ((c.absorb w).mergeBack scopes d.top none) := by
  have hframe := mergeBack_frame (c.absorb w) scopes d.top none
  have hcw' : c.top.written.Below (c.absorb w).top.written := Written.below_absorb_left _ _
  have hcw : c.top.written.Below ((c.absorb w).mergeBack scopes d.top none).top.written := by
    rw [hframe.written]
    exact hcw'.trans (Written.below_absorb_left _ _)
  have hdw : d.top.written.Below ((c.absorb w).mergeBack scopes d.top none).top.written := by
    rw [hframe.written]
    exact Written.below_absorb_right _ _
  refine ⟨⟨hframe.below.trans hc.below, hframe.boundary.trans hc.boundary, fun v => ?_,
    fun r => ?_⟩, hcw⟩
  · have hcurrent : ((c.absorb w).mergeBack scopes d.top none).current scopes v =
        d.current scopes v := by
      rw [mergeBack_current _ hd.boundary (by simp), current_withLayer hd.boundary, hd.current_eq]
      rfl
    rw [hcurrent]
    exact hc.value_through hd hcw hdw v
  · have hobject : ((c.absorb w).mergeBack scopes d.top none).object? r = d.object? r := by
      rw [mergeBack_object _ scopes hd.boundary, object?_withLayer hd.boundary, hd.object?_eq]
      rfl
    rw [hobject]
    exact hc.version_through hd hcw hdw r

theorem mergeLive (hc : Covered scopes base c) {a b : State} (ha : Covered scopes c a)
    (hb : Covered scopes c b) :
    Gives (c.mergeLive scopes a.top b.top) (Keeps scopes base c) := by
  intro esc
  have hframe := mergeLive_frame c scopes a.top b.top esc
  have hlookup v := mergeLive_lookup c scopes a.top b.top v esc
  have hobject r := mergeLive_object c scopes ha.boundary hb.boundary r esc
  set t := (c.mergeLive scopes a.top b.top esc).1
  have hcw : c.top.written.Below t.top.written := by
    rw [hframe.written]
    exact (Written.below_absorb_left _ _).trans (Written.below_absorb_left _ _)
  have haw : a.top.written.Below t.top.written := by
    rw [hframe.written]
    exact (Written.below_absorb_right c.top.written _).trans (Written.below_absorb_left _ _)
  have hbw : b.top.written.Below t.top.written := by
    rw [hframe.written]
    exact Written.below_absorb_right _ _
  refine ⟨⟨hframe.below.trans hc.below, hframe.boundary.trans hc.boundary, fun v => ?_,
    fun r => ?_⟩, hcw⟩
  · have hv := hlookup v
    by_cases hkey : a.top.vars[v]?.isSome ∨ b.top.vars[v]?.isSome
    · rw [if_pos hkey] at hv
      have hcurrent : t.current scopes v = (a.current scopes v).or (b.current scopes v) := by
        rw [current_of_lookup scopes hv, ha.current_eq, hb.current_eq]
      rw [hcurrent]
      exact Value.or_below (hc.value_through ha hcw haw v) (hc.value_through hb hcw hbw v)
    · rw [if_neg hkey] at hv
      rw [current_congr scopes hv]
      exact (hc.value v).trans (bound_mono hcw)
  · rw [hobject r, ← ha.eq_withLayer, ← hb.eq_withLayer]
    exact VersionBelow.join (hc.version_through ha hcw haw r) (hc.version_through hb hcw hbw r)

theorem mergeOr (hc : Covered scopes base c) {a b : State} (ha : Covered scopes c a)
    (hb : Covered scopes c b) :
    Gives (c.mergeOr scopes a.top b.top) (Keeps scopes base c) := by
  unfold State.mergeOr
  split
  · have hfirst := hc.absorb a.top.written
    have hsecond := hfirst.covered.absorb b.top.written
    have hdead := hsecond.covered.markDead
    exact Gives.pure ⟨hdead.covered, (hfirst.grows.trans hsecond.grows).trans hdead.grows⟩
  · exact Gives.pure (hc.mergeBack_beside hb a.top.written)
  · exact Gives.pure (hc.mergeBack_beside ha b.top.written)
  · exact hc.mergeLive ha hb

theorem mergeMaybe (hc : Covered scopes base c) (hd : Covered scopes c d) :
    Gives (c.mergeMaybe scopes d.top) (Keeps scopes base c) := by
  intro esc
  have hframe := mergeMaybe_frame c scopes d.top esc
  have hlookup v := mergeMaybe_lookup c scopes d.top v esc
  have hobject r := mergeMaybe_object c scopes hd.boundary r esc
  set t := (c.mergeMaybe scopes d.top esc).1
  have hcw : c.top.written.Below t.top.written := by
    rw [hframe.written]
    exact Written.below_absorb_left _ _
  have hdw : d.top.written.Below t.top.written := by
    rw [hframe.written]
    exact Written.below_absorb_right _ _
  refine hc.keeps_of_frame hframe (fun v => ?_) fun r => ?_
  · have hv := hlookup v
    have hkept := (hc.value v).trans (bound_mono hcw)
    split at hv
    · rw [current_congr scopes hv]
      exact hkept
    · cases hx : d.top.vars[v]? with
      | none =>
        rw [hx] at hv
        rw [current_congr scopes hv]
        exact hkept
      | some x =>
        rw [hx] at hv
        have hcurrent : d.current scopes v = x := by
          rw [hd.current_eq, Std.TreeMap.getD_eq_getD_getElem?, hx]
          rfl
        rw [current_of_lookup scopes hv, ← hcurrent]
        exact Value.or_below hkept (hc.value_through hd hcw hdw v)
  · have hkept := (hc.version r).trans (boundVersion_mono hcw)
    have hr := hobject r
    split at hr
    · rw [hr]
      exact hkept
    · rw [hr, ← hd.eq_withLayer]
      exact VersionBelow.join hkept (hc.version_through hd hcw hdw r)

theorem mergeUnsure (hc : Covered scopes base c) (w : Written) :
    Gives (c.mergeUnsure scopes w) (Keeps scopes base c) := by
  intro esc
  have hframe := mergeUnsure_frame c scopes w esc
  have hcurrent v := mergeUnsure_bound c scopes w v esc
  have hobject r := mergeUnsure_object c scopes w r esc
  set t := (c.mergeUnsure scopes w esc).1
  have hcw : c.top.written.Below t.top.written := by
    rw [hframe.written]
    exact Written.below_absorb_left _ _
  have hww : w.Below t.top.written := by
    rw [hframe.written]
    exact Written.below_absorb_right _ _
  refine hc.keeps_of_frame hframe (fun v => ?_) fun r => ?_
  · refine (hcurrent v).trans (bound_below ((hc.value v).trans (bound_mono hcw)) fun x hx => ?_)
    obtain ⟨y, hy, hxy⟩ := hww.vars v x hx
    exact hxy.trans (written_below_bound hy)
  · refine (VersionBelow.of_beq (hobject r)).1.trans
      (VersionBelow.join ((hc.version r).trans (boundVersion_mono hcw)) ?_)
    exact written_below_boundVersion hww

/-! ## Runs -/

mutual

/-- Whatever happens to a child, what it knows stays bounded. -/
theorem keeps_step (scopes : ScopeTree) : (step : Step) → {base c : State} →
    Covered scopes base c → Gives (step.run scopes c) (Keeps scopes base c)
  | .set v x, _, _, hc => by
    rw [Step.run]
    exact Gives.pure (hc.setValue v x)
  | .put r o, _, _, hc => by
    rw [Step.run]
    exact Gives.pure (hc.putObject r o)
  | .stop, _, _, hc => by
    rw [Step.run]
    exact Gives.pure hc.markDead
  | .back steps discard, _, c, hc => by
    rw [Step.run]
    exact (keeps_run scopes steps (child scopes c)).bind fun d hd =>
      Gives.pure (hc.mergeBack hd.covered discard)
  | .either first second, _, c, hc => by
    rw [Step.run]
    exact (keeps_run scopes first (child scopes c)).bind fun a ha =>
      (keeps_run scopes second (child scopes c)).bind fun b hb => hc.mergeOr ha.covered hb.covered
  | .maybe steps, _, c, hc => by
    rw [Step.run]
    exact (keeps_run scopes steps (child scopes c)).bind fun d hd => hc.mergeMaybe hd.covered
  | .unsure steps, _, c, hc => by
    rw [Step.run]
    exact (Gives.any _).bind fun d _ => hc.mergeUnsure d.top.written

theorem keeps_run (scopes : ScopeTree) : (steps : List Step) → {base c : State} →
    Covered scopes base c → Gives (Step.runAll scopes steps c) (Keeps scopes base c)
  | [], _, _, hc => by
    rw [Step.runAll]
    exact Gives.pure ⟨hc, Written.Below.refl _⟩
  | step :: rest, _, _, hc => by
    rw [Step.runAll]
    refine (keeps_step scopes step hc).bind fun d hd => ?_
    intro esc
    have hrest := keeps_run scopes rest hd.covered esc
    exact ⟨hrest.covered, hd.grows.trans hrest.grows⟩

end

end Covered

/-! ## The merge at the end -/

/-- Joining what one state knows of a variable or of an object to what another knows changes
nothing. -/
structure JoinedIn (scopes : ScopeTree) (s t : State) : Prop where
  value : ∀ v, ((s.current scopes v).or (t.current scopes v) == t.current scopes v) = true
  version : ∀ r o, s.object? r = some o → ∃ p, t.object? r = some p ∧ (o.or p == p) = true

/-- What is bounded by a union is joined in by a merge through that union. -/
theorem joinedIn_mergeUnsure {scopes : ScopeTree} {s c : State} {w : Written} (esc : RefSet)
    (hvalue : ∀ v, (c.current scopes v).Below (s.bound scopes w v))
    (hversion : ∀ r, VersionBelow (c.object? r) (s.boundVersion w r)) :
    JoinedIn scopes c (s.mergeUnsure scopes w esc).1 where
  value v := by
    obtain ⟨hs, hw, -⟩ := mergeUnsure_current s scopes w v esc
    exact Value.below_iff_or_beq.mp ((hvalue v).trans (bound_below hs hw))
  version r o ho := by
    have hobject := (VersionBelow.of_beq (mergeUnsure_object s scopes w r esc)).2
    obtain ⟨p, hp, hop⟩ := ((hversion r).trans hobject) o ho
    exact ⟨p, hp, HeapObject.below_iff_or_beq.mp hop⟩

/-- A run of the first steps, and then of the rest. -/
theorem runAll_append (scopes : ScopeTree) (first rest : List Step) (c : State) :
    Step.runAll scopes (first ++ rest) c =
      Step.runAll scopes first c >>= Step.runAll scopes rest := by
  induction first generalizing c with
  | nil =>
    rw [List.nil_append, Step.runAll, pure_bind]
  | cons step first ih =>
    rw [List.cons_append, Step.runAll, Step.runAll, bind_assoc]
    exact congrArg _ (funext ih)

/-- After code that may stop anywhere was merged through all that it wrote, everything that was known
before it, and everything that it knew at any moment, is joined in. -/
theorem mergeUnsure_covers_run (scopes : ScopeTree) (s : State) (steps : List Step) (esc : RefSet) :
    let run := Step.runAll scopes steps s.child esc
    let after := (s.mergeUnsure scopes run.1.top.written run.2).1
    JoinedIn scopes s after ∧
      ∀ n, JoinedIn scopes (Step.runAll scopes (steps.take n) s.child esc).1 after := by
  intro run after
  refine ⟨joinedIn_mergeUnsure _ (current_below_bound scopes s _)
    fun r => VersionBelow.join_left _ _, fun n => ?_⟩
  have hstart := Covered.keeps_run scopes (steps.take n) (Covered.child scopes s) esc
  have hgrows : (Step.runAll scopes (steps.take n) s.child esc).1.top.written.Below
      run.1.top.written := by
    have hrest := Covered.keeps_run scopes (steps.drop n) hstart.covered
      (Step.runAll scopes (steps.take n) s.child esc).2
    have hrun : run = Step.runAll scopes (steps.take n ++ steps.drop n) s.child esc := by
      rw [List.take_append_drop]
    rw [hrun, runAll_append]
    exact hrest.grows
  exact joinedIn_mergeUnsure _
    (fun v => (hstart.covered.value v).trans (bound_mono hgrows))
    fun r => (hstart.covered.version r).trans (boundVersion_mono hgrows)

end State

end EsOptimizer
