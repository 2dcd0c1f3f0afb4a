import EsOptimizer.Proofs.Analysis.Observed
import EsOptimizer.Proofs.Flow.Merge

/-!
# How the analysis moves on

`Advances scopes b p q` says all that the analysis of some code can do to what was found out
so far: it adds to it and takes nothing back. The layers below the top one stay; what was written,
the facts about nodes, the values to return, the arguments of calls and the values stored in
variables only grow. Only the nodes `ids` get new facts, and only the variables `vars` are written.

`Track.Moves` is the logic of such steps: one rule for each way to put steps together, and one
lemma for each elementary step.
-/

namespace EsOptimizer

/-! ## Order of keys -/

instance : Std.TransOrd VarKey :=
  inferInstanceAs (Std.TransCmp (compareLex (compareOn VarKey.tier)
    (compareLex (compareOn VarKey.number) (compareOn VarKey.text))))

instance : Std.LawfulEqOrd VarKey where
  compare_self := Std.ReflCmp.compare_self
  eq_of_compare {a b} h := by
    obtain ⟨htier, h⟩ := compareLex_eq_eq.mp h
    obtain ⟨hnumber, htext⟩ := compareLex_eq_eq.mp h
    have htier : a.tier = b.tier := Std.LawfulEqCmp.eq_of_compare htier
    have hnumber : a.number = b.number := Std.LawfulEqCmp.eq_of_compare hnumber
    have htext : a.text = b.text := Std.LawfulEqCmp.eq_of_compare htext
    cases a <;> cases b <;> simp_all [VarKey.tier, VarKey.number, VarKey.text]

/-! ## Growth -/

/-- Less is known of a node. -/
structure NodeFacts.Below (a b : NodeFacts) : Prop where
  value : a.value.Below b.value
  pure : b.pure = true → a.pure = true

namespace NodeFacts

theorem Below.refl (a : NodeFacts) : Below a a := ⟨Value.Below.refl _, id⟩

theorem Below.trans {a b c : NodeFacts} (hab : Below a b) (hbc : Below b c) : Below a c :=
  ⟨hab.value.trans hbc.value, hab.pure ∘ hbc.pure⟩

end NodeFacts

/-- Of every argument there is at least as much; arguments left out are `undefined`. -/
def ArgsBelow (a b : List Value) : Prop :=
  ∀ i : Nat, (a.getD i .undefined).Below (b.getD i .undefined)

theorem ArgsBelow.refl (a : List Value) : ArgsBelow a a := fun _ => Value.Below.refl _

theorem ArgsBelow.trans {a b c : List Value} (hab : ArgsBelow a b) (hbc : ArgsBelow b c) :
    ArgsBelow a c :=
  fun i => (hab i).trans (hbc i)

theorem argsBelow_joinArgs (a b : List Value) :
    ArgsBelow a (Track.joinArgs a b) ∧ ArgsBelow b (Track.joinArgs a b) := by
  refine ⟨fun i => ?_, fun i => ?_⟩
  · rw [Track.getD_joinArgs]
    exact Value.below_or_left _ _
  · rw [Track.getD_joinArgs]
    exact Value.below_or_right _ _

/-- Calls that are noted add to the arguments noted before. -/
theorem Track.Observes.growsBy {a b : Std.TreeMap NodeId (List Value)} (h : Observes a b) :
    GrowsBy ArgsBelow a b := by
  obtain ⟨calls, rfl⟩ := h
  induction calls generalizing a with
  | nil => exact GrowsBy.refl ArgsBelow.refl _
  | cons call rest ih =>
    refine GrowsBy.trans (R := ArgsBelow) (fun _ _ _ => .trans) ?_ ih
    refine GrowsBy.insert ArgsBelow.refl fun old hold => ?_
    rw [hold]
    exact (argsBelow_joinArgs old call.2).1

/-- Whatever may be returned may still be returned. -/
def ReturnsBelow (a b : Option Value) : Prop := ∀ x, a = some x → ∃ y, b = some y ∧ x.Below y

theorem ReturnsBelow.refl (a : Option Value) : ReturnsBelow a a :=
  fun x h => ⟨x, h, Value.Below.refl x⟩

theorem ReturnsBelow.trans {a b c : Option Value} (hab : ReturnsBelow a b)
    (hbc : ReturnsBelow b c) : ReturnsBelow a c := by
  intro x hx
  obtain ⟨y, hy, hxy⟩ := hab x hx
  obtain ⟨z, hz, hyz⟩ := hbc y hy
  exact ⟨z, hz, hxy.trans hyz⟩

/-! ## The relation -/

/-- How far some code can reach. -/
structure Bounds where
  /-- The nodes of which facts are recorded. -/
  ids : NodeId → Prop
  /-- The variables that are written. -/
  vars : VarId → Prop
  /-- Whether control may end. -/
  ends : Prop

/-- No bounds at all. -/
def Bounds.all : Bounds := ⟨fun _ => True, fun _ => True, True⟩

/-- No facts are recorded, no variables written, and control goes on. -/
def Bounds.none : Bounds := ⟨fun _ => False, fun _ => False, False⟩

/-- What reaches no further than `a` reaches no further than `b`. -/
structure Bounds.Within (a b : Bounds) : Prop where
  ids : ∀ id, a.ids id → b.ids id
  vars : ∀ v, a.vars v → b.vars v
  ends : a.ends → b.ends

theorem Bounds.within_all (b : Bounds) : b.Within all :=
  ⟨fun _ _ => trivial, fun _ _ => trivial, fun _ => trivial⟩

theorem Bounds.none_within (b : Bounds) : none.Within b := ⟨nofun, nofun, nofun⟩

/-- What following some code does. -/
structure Advances (scopes : ScopeTree) (b : Bounds) (p q : Progress) : Prop where
  below : q.state.below = p.state.below
  boundary : q.state.top.boundary = p.state.top.boundary
  dead : p.state.isDead = true → q.state.isDead = true
  alive : ¬b.ends → q.state.isDead = p.state.isDead
  written : Values.Below p.state.top.written.vars q.state.top.written.vars
  untouched : ∀ v, ¬b.vars v → State.Untouched v p.state q.state
  facts : GrowsBy NodeFacts.Below p.nodeFacts q.nodeFacts
  unrecorded : ∀ id, ¬b.ids id → q.nodeFacts[id]? = p.nodeFacts[id]?
  scope : q.frame.scope = p.frame.scope
  returns : ReturnsBelow p.frame.returns q.frame.returns
  observed : Track.Observes p.calls q.calls
  possible : GrowsBy Value.Below p.possible q.possible
  unstored : ∀ key, (∀ v, b.vars v → (scopes.var v).key ≠ key) →
    q.possible[key]? = p.possible[key]?
  summaries : q.summaries = p.summaries

namespace Advances

variable {scopes : ScopeTree} {b : Bounds}

theorem refl (p : Progress) : Advances scopes b p p where
  below := rfl
  boundary := rfl
  dead := id
  alive := fun _ => rfl
  written := Values.Below.refl _
  untouched := fun v _ => State.Untouched.refl v _
  facts := GrowsBy.refl NodeFacts.Below.refl _
  unrecorded := fun _ _ => rfl
  scope := rfl
  returns := ReturnsBelow.refl _
  observed := Track.Observes.refl _
  possible := GrowsBy.refl Value.Below.refl _
  unstored := fun _ _ => rfl
  summaries := rfl

theorem trans {p q r : Progress} (hpq : Advances scopes b p q)
    (hqr : Advances scopes b q r) : Advances scopes b p r where
  below := hqr.below.trans hpq.below
  boundary := hqr.boundary.trans hpq.boundary
  dead := hqr.dead ∘ hpq.dead
  alive := fun h => (hqr.alive h).trans (hpq.alive h)
  written := hpq.written.trans hqr.written
  untouched := fun v hv => (hpq.untouched v hv).trans (hqr.untouched v hv)
  facts := GrowsBy.trans (R := NodeFacts.Below) (fun _ _ _ => .trans) hpq.facts hqr.facts
  unrecorded := fun id h => (hqr.unrecorded id h).trans (hpq.unrecorded id h)
  scope := hqr.scope.trans hpq.scope
  returns := hpq.returns.trans hqr.returns
  observed := hpq.observed.trans hqr.observed
  possible := GrowsBy.trans (R := Value.Below) (fun _ _ _ => .trans) hpq.possible hqr.possible
  unstored := fun key h => (hqr.unstored key h).trans (hpq.unstored key h)
  summaries := hqr.summaries.trans hpq.summaries

theorem mono {p q : Progress} {c : Bounds} (h : Advances scopes b p q) (hbc : b.Within c) :
    Advances scopes c p q :=
  { h with
    alive := fun hc => h.alive fun hb => hc (hbc.ends hb)
    untouched := fun v hv => h.untouched v fun hv' => hv (hbc.vars v hv')
    unrecorded := fun id hid => h.unrecorded id fun hid' => hid (hbc.ids id hid')
    unstored := fun key hkey => h.unstored key fun v hv => hkey v (hbc.vars v hv) }

theorem calls {p q : Progress} (h : Advances scopes b p q) : GrowsBy ArgsBelow p.calls q.calls :=
  h.observed.growsBy

/-- The state changes, but not as far as variables go. -/
theorem withState {p : Progress} {s : State} (h : State.SameVars p.state s) :
    Advances scopes b p { p with state := s } :=
  { refl p with
    below := h.below
    boundary := h.boundary
    dead := fun hd => h.dead.trans hd
    alive := fun _ => h.dead
    written := by
      change Values.Below _ s.top.written.vars
      rw [h.written]
      exact Values.Below.refl _
    untouched := fun v _ => h.untouched v }

/-- The state is replaced by the outcome of a merge. -/
theorem withMerged {p : Progress} {s : State} {parts : List Written}
    (h : State.Merged p.state s parts) (hdead : p.state.isDead = true → s.isDead = true)
    (halive : ¬b.ends → s.isDead = p.state.isDead)
    (hvars : ∀ v, ¬b.vars v → State.Untouched v p.state s) :
    Advances scopes b p { p with state := s } :=
  { refl p with
    below := h.below
    boundary := h.boundary
    dead := hdead
    alive := halive
    written := h.written
    untouched := hvars }

/-- Variables look the same unless they were written. -/
theorem lookup {p q : Progress} (h : Advances scopes b p q) {v : VarId} (hv : ¬b.vars v) :
    q.state.lookup v = p.state.lookup v := by
  rw [State.lookup_eq, State.lookup_eq, (h.untouched v hv).vars, h.below, Layer.bounds,
    Layer.bounds, h.boundary]

end Advances

end EsOptimizer
