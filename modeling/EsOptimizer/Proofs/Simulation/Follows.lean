import EsOptimizer.Proofs.Simulation.Layout

/-!
# A run beside its analysis

`Follows` relates the place of an analysis to the values of variables in a run: what the analysis
knows of each variable in force holds its value. `Ran` describes what happens between two such
places: every evaluation is one that the recorded facts explain, and a variable that changed has a
value that was noted as written. The latter is what makes up for parts of the run that end early.

Both are kept when the analysis goes on by itself, as it does over code that the run does not
reach.
-/

namespace EsOptimizer

/-- The recorded facts explain an evaluation: they hold its value, and if they say that the
evaluation is pure then it changed nothing. -/
def Explains (facts : Std.TreeMap NodeId NodeFacts) (ev : Evaluation) : Prop :=
  ∃ f, facts[ev.node]? = some f ∧ f.value.Holds (.primitive ev.value) ∧
    (f.pure = true → ev.after = ev.before)

theorem Explains.grow {facts facts' : Std.TreeMap NodeId NodeFacts} {ev : Evaluation}
    (h : Explains facts ev) (hgrow : GrowsBy NodeFacts.Below facts facts') :
    Explains facts' ev := by
  obtain ⟨f, hf, hvalue, hpure⟩ := h
  obtain ⟨f', hf', hbelow⟩ := hgrow _ _ hf
  exact ⟨f', hf', hbelow.value _ hvalue, fun h => hpure (hbelow.pure h)⟩

/-- What the analysis knows holds the values of the variables in force. -/
structure Follows (cx : Context) (fs : ScopeId) (Δ : Layout) (p : Progress) (ρ : Valuation) :
    Prop where
  scope : p.frame.scope = fs
  holds : ∀ v ∈ Δ.vars, (p.state.current cx.scopes v).Holds (.primitive (ρ v))

/-- A run went from `w` to `w'`, and the variables from `ρ` to `ρ'`, while the analysis came to `q`. -/
structure Ran (Δ : Layout) (q : Progress) (ρ ρ' : Valuation) (w w' : World) : Prop where
  env : w'.env = Δ.env ρ'
  trace : ∃ new, w'.trace = new ++ w.trace ∧ ∀ ev ∈ new, Explains q.nodeFacts ev
  covered : ∀ v ∈ Δ.vars, ρ' v = ρ v ∨
    ∃ x, q.state.top.written.vars[v]? = some x ∧ x.Holds (.primitive (ρ' v))

section

variable {cx : Context} {fs : ScopeId} {Δ : Layout} {b : Bounds} {p q r : Progress}
  {ρ ρ' ρ'' : Valuation} {w w' w'' : World}

namespace Ran

theorem refl (q : Progress) (h : w.env = Δ.env ρ) : Ran Δ q ρ ρ w w :=
  ⟨h, ⟨[], rfl, nofun⟩, fun _ _ => Or.inl rfl⟩

/-- What was written counts even if it is noted elsewhere. -/
theorem transfer (h : Ran Δ p ρ ρ' w w') (hfacts : GrowsBy NodeFacts.Below p.nodeFacts q.nodeFacts)
    (hwritten : Values.Below p.state.top.written.vars q.state.top.written.vars) :
    Ran Δ q ρ ρ' w w' := by
  obtain ⟨henv, ⟨new, htrace, hnew⟩, hcovered⟩ := h
  refine ⟨henv, ⟨new, htrace, fun ev hev => (hnew ev hev).grow hfacts⟩, fun v hv => ?_⟩
  rcases hcovered v hv with heq | ⟨x, hx, hholds⟩
  · exact Or.inl heq
  · obtain ⟨y, hy, hxy⟩ := hwritten v x hx
    exact Or.inr ⟨y, hy, hxy _ hholds⟩

/-- The analysis may go on by itself. -/
theorem advance (h : Ran Δ p ρ ρ' w w') (hpq : Advances cx.scopes b p q) :
    Ran Δ q ρ ρ' w w' :=
  h.transfer hpq.facts hpq.written

theorem trans (h : Ran Δ q ρ ρ' w w') (h' : Ran Δ q ρ' ρ'' w' w'') : Ran Δ q ρ ρ'' w w'' := by
  obtain ⟨-, ⟨new, htrace, hnew⟩, hcovered⟩ := h
  obtain ⟨henv', ⟨new', htrace', hnew'⟩, hcovered'⟩ := h'
  refine ⟨henv', ⟨new' ++ new, ?_, fun ev hev => ?_⟩, fun v hv => ?_⟩
  · rw [htrace', htrace, List.append_assoc]
  · rcases List.mem_append.mp hev with hev | hev
    · exact hnew' ev hev
    · exact hnew ev hev
  · rcases hcovered' v hv with heq | hwritten
    · rw [heq]
      exact hcovered v hv
    · exact Or.inr hwritten

end Ran

namespace Follows

/-- Steps that write no variable in force keep the relation. -/
theorem advance (h : Follows cx fs Δ p ρ) (hpq : Advances cx.scopes b p q)
    (hvars : ∀ v ∈ Δ.vars, ¬b.vars v) : Follows cx fs Δ q ρ := by
  refine ⟨hpq.scope.trans h.scope, fun v hv => ?_⟩
  rw [State.current_congr cx.scopes (hpq.lookup (hvars v hv))]
  exact h.holds v hv

/-- More may be known of the variables than need be. -/
theorem below (h : Follows cx fs Δ p ρ) (hscope : q.frame.scope = fs)
    (hbelow : ∀ v, (p.state.current cx.scopes v).Below (q.state.current cx.scopes v)) :
    Follows cx fs Δ q ρ :=
  ⟨hscope, fun v hv => hbelow v _ (h.holds v hv)⟩

/-- After code that may have stopped anywhere: what a variable was before or may have become since
is known of it. -/
theorem unsure (h : Follows cx fs Δ p ρ) (hscope : q.frame.scope = fs)
    (hbefore : ∀ v, (p.state.current cx.scopes v).Below (q.state.current cx.scopes v))
    {written : Written}
    (hwritten : ∀ (v : VarId) (x : Value), written.vars[v]? = some x →
      x.Below (q.state.current cx.scopes v))
    (hcovered : ∀ v ∈ Δ.vars, ρ' v = ρ v ∨
      ∃ x, written.vars[v]? = some x ∧ x.Holds (.primitive (ρ' v))) : Follows cx fs Δ q ρ' := by
  refine ⟨hscope, fun v hv => ?_⟩
  rcases hcovered v hv with heq | ⟨x, hx, hholds⟩
  · rw [heq]
    exact hbefore v _ (h.holds v hv)
  · exact hwritten v x hx _ hholds

end Follows

/-! ## Code in a state of its own -/

/-- The place where code in a state of its own starts. -/
def Progress.child (p : Progress) : Progress := { p with state := p.state.child }

theorem Follows.child (h : Follows cx fs Δ p ρ) : Follows cx fs Δ p.child ρ := by
  refine ⟨h.scope, fun v hv => ?_⟩
  change (p.state.child.current cx.scopes v).Holds _
  rw [State.current_child]
  exact h.holds v hv

/-- What code in a state of its own ends with is its layer on top of the state around it. -/
theorem Advances.state_eq_withLayer (h : Advances cx.scopes b p.child q) :
    q.state = p.state.withLayer q.state.top ∧ q.state.top.boundary = none := by
  refine ⟨?_, h.boundary⟩
  change q.state = ⟨q.state.top, p.child.state.below⟩
  rw [← h.below]

namespace Track

variable {α β : Type} {a : Track α} {d : Track β}

/-- Follows code that may or may not run. -/
def tried (a : Track α) : Track α := do
  let (x, delta) ← inChild a
  mergeMaybe delta
  return x

/-- Follows two pieces of code of which exactly one runs. -/
def either (a : Track α) (d : Track β) : Track (α × β) := do
  let (x, delta) ← inChild a
  let (y, delta') ← inChild d
  mergeOr delta delta'
  return (x, y)

theorem moves_tried (h : Moves cx b a) : Moves cx b (tried a) :=
  (movesTo_inChild h).bind fun _ hr => (moves_mergeMaybe hr).bind fun _ => Moves.pure _

theorem moves_either (ha : Moves cx b a) (hd : Moves cx b d) : Moves cx b (either a d) :=
  (movesTo_inChild ha).bind fun _ hr => (movesTo_inChild hd).bind fun _ hs =>
    (moves_mergeOr hr hs).bind fun _ => Moves.pure _

/-- The run skipped the code. -/
theorem follows_tried_of_skip (h : Moves cx b a) (hp : Follows cx fs Δ p ρ) :
    Follows cx fs Δ (tried a cx p).2 ρ := by
  have hchild := (h p.child).state_eq_withLayer
  refine hp.below ((moves_tried h p).scope.trans hp.scope) fun v => ?_
  exact (p.state.mergeMaybe_current cx.scopes hchild.2 v _).1

/-- The run went through the code to its end. -/
theorem follows_tried (h : Moves cx b a) (hq : Follows cx fs Δ (a cx p.child).2 ρ)
    (halive : (a cx p.child).2.state.isDead = false) : Follows cx fs Δ (tried a cx p).2 ρ := by
  obtain ⟨hstate, hboundary⟩ := (h p.child).state_eq_withLayer
  refine hq.below ((moves_tried h p).scope.trans ((h p.child).scope.symm.trans hq.scope)) fun v => ?_
  rw [hstate]
  exact (p.state.mergeMaybe_current cx.scopes hboundary v _).2 halive

theorem ran_tried (h : Ran Δ (a cx p.child).2 ρ ρ' w w') : Ran Δ (tried a cx p).2 ρ ρ' w w' := by
  obtain ⟨hm, -⟩ := p.state.mergeMaybe_merged cx.scopes (a cx p.child).2.state.top
    (a cx p.child).2.escaped
  exact h.transfer (GrowsBy.refl NodeFacts.Below.refl _) (hm.parts _ List.mem_cons_self)

theorem dead_tried : (tried a cx p).2.state.isDead = p.state.isDead :=
  (p.state.mergeMaybe_merged cx.scopes (a cx p.child).2.state.top (a cx p.child).2.escaped).2

/-- The place between two pieces of code of which exactly one runs. -/
def between (cx : Context) (a : Track α) (p : Progress) : Progress :=
  { (a cx p.child).2 with state := p.state }

theorem follows_between (h : Moves cx b a) (hp : Follows cx fs Δ p ρ) :
    Follows cx fs Δ (between cx a p) ρ :=
  ⟨(h p.child).scope.trans hp.scope, hp.holds⟩

/-- The run went through the first piece to its end. -/
theorem follows_either_left (ha : Moves cx b a) (hd : Moves cx b d)
    (hq : Follows cx fs Δ (a cx p.child).2 ρ) (halive : (a cx p.child).2.state.isDead = false) :
    Follows cx fs Δ (either a d cx p).2 ρ := by
  obtain ⟨hstate, hboundary⟩ := (ha p.child).state_eq_withLayer
  obtain ⟨-, hboundary'⟩ := (hd (between cx a p).child).state_eq_withLayer
  refine hq.below ((moves_either ha hd p).scope.trans ((ha p.child).scope.symm.trans hq.scope))
    fun v => ?_
  rw [hstate]
  exact (p.state.mergeOr_current cx.scopes hboundary hboundary' v _).1 halive

/-- The run went through the second piece to its end. -/
theorem follows_either_right (ha : Moves cx b a) (hd : Moves cx b d)
    (hq : Follows cx fs Δ (d cx (between cx a p).child).2 ρ)
    (halive : (d cx (between cx a p).child).2.state.isDead = false) :
    Follows cx fs Δ (either a d cx p).2 ρ := by
  obtain ⟨-, hboundary⟩ := (ha p.child).state_eq_withLayer
  obtain ⟨hstate, hboundary'⟩ := (hd (between cx a p).child).state_eq_withLayer
  refine hq.below ((moves_either ha hd p).scope.trans ?_) fun v => ?_
  · exact (ha p.child).scope.symm.trans ((hd (between cx a p).child).scope.symm.trans hq.scope)
  · rw [hstate]
    exact (p.state.mergeOr_current cx.scopes hboundary hboundary' v _).2 halive

theorem ran_either_left (hd : Moves cx b d) (h : Ran Δ (a cx p.child).2 ρ ρ' w w') :
    Ran Δ (either a d cx p).2 ρ ρ' w w' := by
  obtain ⟨hm, -⟩ := p.state.mergeOr_merged cx.scopes (a cx p.child).2.state.top
    (d cx (between cx a p).child).2.state.top (d cx (between cx a p).child).2.escaped
  exact h.transfer (hd (between cx a p).child).facts (hm.parts _ (by simp))

theorem ran_either_right (h : Ran Δ (d cx (between cx a p).child).2 ρ ρ' w w') :
    Ran Δ (either a d cx p).2 ρ ρ' w w' := by
  obtain ⟨hm, -⟩ := p.state.mergeOr_merged cx.scopes (a cx p.child).2.state.top
    (d cx (between cx a p).child).2.state.top (d cx (between cx a p).child).2.escaped
  exact h.transfer (GrowsBy.refl NodeFacts.Below.refl _) (hm.parts _ List.mem_cons_self)

theorem dead_either : (either a d cx p).2.state.isDead = (p.state.isDead ||
    (a cx p.child).2.state.isDead && (d cx (between cx a p).child).2.state.isDead) :=
  (p.state.mergeOr_merged cx.scopes (a cx p.child).2.state.top
    (d cx (between cx a p).child).2.state.top (d cx (between cx a p).child).2.escaped).2

end Track

end

end EsOptimizer
