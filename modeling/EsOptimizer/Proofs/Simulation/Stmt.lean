import EsOptimizer.Proofs.Simulation.Expr

/-!
# Parts of statements

`Executes` relates the analysis of a statement to running it. Whatever happens on the way is
explained and covered; a value that is returned is one of those that the analysis expects. If the
outcome is one of `ok`, then the analysis has not ended and still follows the run.

For most statements only a normal outcome is of this kind (`Completes`). The merges for code that
may stop anywhere make every outcome one (`Survives`), which is what the statements around jumps
rely on.
-/

namespace EsOptimizer

/-- The value that an outcome returns. -/
def Outcome.returned? : Outcome → Option Primitive
  | .return value => some value
  | _ => none

/-- The analysis expects that a value may be returned. -/
def Returns (q : Progress) (value : Option Primitive) : Prop :=
  ∀ x, value = some x → ∃ r, q.frame.returns = some r ∧ r.Holds (.primitive x)

theorem Returns.none (q : Progress) : Returns q none := nofun

theorem Returns.grow {p q : Progress} {value : Option Primitive} (h : Returns p value)
    (hpq : ReturnsBelow p.frame.returns q.frame.returns) : Returns q value := by
  intro x hx
  obtain ⟨r, hr, hholds⟩ := h x hx
  obtain ⟨s, hs, hrs⟩ := hpq r hr
  exact ⟨s, hs, hrs _ hholds⟩

section

variable {α β γ : Type}

/-- Following code `a` and running code `c` go together. `ret` is the value that an outcome returns,
and outcomes that are `ok` leave the analysis with a state that follows the run. -/
structure Executes (cx : Context) (fs : ScopeId) (Δ : Layout) (ret : β → Option Primitive)
    (ok : β → Prop) (a : Track Unit) (c : Run β) : Prop where
  moves : Track.Moves cx .all a
  runs : ∀ {p ρ w}, p.state.isDead = false → Follows cx fs Δ p ρ → w.env = Δ.env ρ →
    ∃ ρ', Ran Δ (a cx p).2 ρ ρ' w (c w).2 ∧ Returns (a cx p).2 (ret (c w).1) ∧
      (ok (c w).1 → (a cx p).2.state.isDead = false ∧ Follows cx fs Δ (a cx p).2 ρ')

/-- Code after which the analysis goes on if the run does. -/
abbrev Completes (cx : Context) (fs : ScopeId) (Δ : Layout) (a : Track Unit) (c : Run Outcome) :
    Prop :=
  Executes cx fs Δ Outcome.returned? (· = .normal) a c

/-- Code after which the analysis goes on in any case. -/
abbrev Survives (cx : Context) (fs : ScopeId) (Δ : Layout) (a : Track Unit) (c : Run Outcome) :
    Prop :=
  Executes cx fs Δ Outcome.returned? (fun _ => True) a c

variable {cx : Context} {fs : ScopeId} {Δ : Layout} {ret : β → Option Primitive} {ok : β → Prop}
  {a d : Track Unit} {c : Run β}

namespace Executes

theorem imp {ok' : β → Prop} (h : Executes cx fs Δ ret ok a c) (hok : ∀ y, ok' y → ok y) :
    Executes cx fs Δ ret ok' a c where
  moves := h.moves
  runs := by
    intro p ρ w halive hp hw
    obtain ⟨ρ', hran, hret, hgo⟩ := h.runs halive hp hw
    exact ⟨ρ', hran, hret, fun hy => hgo (hok _ hy)⟩

/-- Nothing is done. -/
theorem skip {y : β} (h : ret y = none) : Executes cx fs Δ ret ok (pure ()) (pure y) where
  moves := Track.Moves.pure ()
  runs := fun {p ρ _} halive hp hw =>
    ⟨ρ, Ran.refl _ hw, by change Returns p (ret y); rw [h]; exact Returns.none p,
      fun _ => ⟨halive, hp⟩⟩

end Executes

/-- Code after an evaluation. -/
theorem Simulates.andThen {R : α → γ → Prop} {P : α → Prop} {e : Track α} {r : Run γ}
    {f : α → Track Unit} {g : γ → Run β} (he : Simulates cx fs Δ e r R P)
    (hmoves : Track.Moves cx .all (e >>= f))
    (hf : ∀ x y, R x y → Executes cx fs Δ ret ok (f x) (g y)) :
    Executes cx fs Δ ret ok (e >>= f) (r >>= g) where
  moves := hmoves
  runs := by
    intro p ρ w halive hp hw
    obtain ⟨ρ', hran, hq, hR, -⟩ := he.runs hp hw
    have hnext := hf _ _ hR
    obtain ⟨ρ'', hran', hret, hgo⟩ := hnext.runs (he.alive halive) hq hran.env
    exact ⟨ρ'', (hran.advance (hnext.moves _)).trans hran', hret, hgo⟩

/-- An evaluation by itself. -/
theorem Simulates.executes {R : α → γ → Prop} {P : α → Prop} {e : Track α} {r : Run γ} {y : β}
    (he : Simulates cx fs Δ e r R P) (hy : ret y = none) :
    Executes cx fs Δ ret ok (discard e) (do discard r; return y) :=
  he.andThen (fun p => (he.moves p).mono (Bounds.within_all _)) fun _ _ _ => Executes.skip hy

theorem Run.andThen_apply (c e : Run Outcome) (w : World) :
    (do
      match ← c with
      | .normal => e
      | outcome => return outcome : Run Outcome) w =
      if (c w).1 = .normal then e (c w).2 else c w := by
  change (match (c w).1 with
    | .normal => e
    | outcome => return outcome : Run Outcome) (c w).2 = _
  generalize c w = r
  obtain ⟨o, w'⟩ := r
  cases o <;> rfl

/-- Code after code, if the run gets past the first. -/
theorem Completes.andThen {c e : Run Outcome} (ha : Completes cx fs Δ a c)
    (hd : Completes cx fs Δ d e) :
    Completes cx fs Δ (do a; d) (do
      match ← c with
      | .normal => e
      | outcome => return outcome) where
  moves := ha.moves.bind fun _ => hd.moves
  runs := by
    intro p ρ w halive hp hw
    obtain ⟨ρ', hran, hret, hgo⟩ := ha.runs halive hp hw
    have hmoves := hd.moves (a cx p).2
    rw [Run.andThen_apply]
    split
    · rename_i hnormal
      obtain ⟨halive', hq⟩ := hgo hnormal
      obtain ⟨ρ'', hran', hret', hgo'⟩ := hd.runs halive' hq hran.env
      exact ⟨ρ'', (hran.advance hmoves).trans hran', hret', hgo'⟩
    · rename_i hnormal
      exact ⟨ρ', hran.advance hmoves, hret.grow hmoves.returns, fun h => absurd h hnormal⟩

/-! ## Statements and scopes -/

theorem Executes.followed (h : Executes cx fs Δ ret ok a c) (id : NodeId) :
    Executes cx fs Δ ret ok (Track.followed id a) c where
  moves := Track.moves_followed id h.moves
  runs := by
    intro p ρ w halive hp hw
    obtain ⟨ρ', hran, hret, hgo⟩ := h.runs halive hp hw
    have happly : Track.followed id a cx p = Track.notify .stmt id cx (a cx p).2 := by
      change (if (!p.state.isDead) = true then _ else _ : Track Unit) cx p = _
      rw [halive]
      rfl
    have hnotify : Advances cx.scopes .none (a cx p).2 (Track.followed id a cx p).2 := by
      rw [happly]
      exact Track.moves_notify .stmt id _
    refine ⟨ρ', hran.advance hnotify, hret.grow hnotify.returns, fun hy => ?_⟩
    obtain ⟨halive', hq⟩ := hgo hy
    exact ⟨(hnotify.alive fun h => h).trans halive', hq.advance hnotify fun _ _ h => h⟩

theorem forIn_skip {items : List α} {f : α → PUnit → Track (ForInStep PUnit)}
    (h : ∀ x ∈ items, f x ⟨⟩ cx = (pure (.yield ⟨⟩) : Track (ForInStep PUnit)) cx) :
    (forIn items ⟨⟩ f : Track PUnit) cx = (pure ⟨⟩ : Track PUnit) cx := by
  induction items with
  | nil => rfl
  | cons x rest ih =>
    rw [List.forIn_cons]
    funext p
    rw [Track.bind_apply, h x List.mem_cons_self]
    exact congrFun (ih fun y hy => h y (List.mem_cons_of_mem _ hy)) p

theorem Track.enterScope_apply (s : ScopeId) : Track.enterScope s cx = (do
    for (_, id) in (cx.scopes.scope s).vars do
      match cx.scopes.initialValue id with
      | some value => Track.writeVar id value
      | none => pure ()
    for (id, function) in (cx.scopes.scope s).hoisted do
      let r ← Track.allocateFunction function
      Track.writeVar id (.ofReference r) : Track Unit) cx := rfl

/-- Entering a scope whose variables have no values from the start does nothing. -/
theorem enterScope_eq {s : ScopeId} (hhoisted : (cx.scopes.scope s).hoisted = [])
    (hinitial : ∀ x ∈ (cx.scopes.scope s).vars, cx.scopes.initialValue x.2 = none) :
    Track.enterScope s cx = (pure () : Track Unit) cx := by
  rw [Track.enterScope_apply, hhoisted]
  refine forIn_skip fun x hx => ?_
  have hnone := hinitial x hx
  obtain ⟨name, v⟩ := x
  dsimp only at hnone ⊢
  rw [hnone]

/-- What is followed in the scope of a node: the scope is entered, if there is one, and then the code
is followed. -/
def Track.inner (scopes : ScopeTree) (node : NodeId) (body : Track Unit) : Track Unit := do
  match scopes.scopeOf node with
  | some s => Track.enterScope s
  | none => pure ()
  body

theorem Track.inScope_eq_inner (id : NodeId) (a : Track Unit) (p : Progress) :
    Track.inScope id a cx p =
      Track.mergeBack (Track.inner cx.scopes id a cx p.child).2.state.top (cx.scopes.scopeOf id) cx
        (Track.between cx (Track.inner cx.scopes id a) p) := by
  have hread : (read : Track Context) cx p = (cx, p) := rfl
  rw [Track.inScope, Track.bind_apply, hread, Track.bind_apply]
  rfl

theorem inScope_apply {id : NodeId} (hopens : cx.scopes.OpensNone Δ id) (a : Track Unit)
    (p : Progress) : Track.inScope id a cx p =
      Track.mergeBack (a cx p.child).2.state.top (cx.scopes.scopeOf id) cx
        (Track.between cx a p) := by
  have hinner : Track.inner cx.scopes id a cx = a cx := by
    unfold Track.inner
    cases hs : cx.scopes.scopeOf id with
    | none => rfl
    | some s =>
      funext q
      change a cx (Track.enterScope s cx q).2 = _
      rw [enterScope_eq (hopens.hoisted s hs) (hopens.initial s hs)]
      rfl
  rw [Track.inScope_eq_inner, Track.between, hinner]
  rfl

/-- Leaving a scope that does not matter to the variables in force. -/
theorem follows_inScope {id : NodeId} {b : Bounds} {p : Progress} {ρ : Valuation}
    (hopens : cx.scopes.OpensNone Δ id) (hmoves : Track.Moves cx b a)
    (halive : p.state.isDead = false) (halive' : (a cx p.child).2.state.isDead = false)
    (hp : Follows cx fs Δ (a cx p.child).2 ρ) :
    (Track.inScope id a cx p).2.state.isDead = false ∧
      Follows cx fs Δ (Track.inScope id a cx p).2 ρ := by
  obtain ⟨hstate, hboundary⟩ := (hmoves p.child).state_eq_withLayer
  set q := (a cx p.child).2 with hq
  rw [inScope_apply hopens]
  refine ⟨?_, hp.scope, fun v hv => ?_⟩
  · obtain ⟨-, -, hdead, -⟩ := p.state.mergeBack_rest cx.scopes q.state.top (cx.scopes.scopeOf id)
    refine hdead.trans ?_
    rw [show p.state.top.dead = false from halive, show q.state.top.dead = false from halive']
    rfl
  · change ((p.state.mergeBack cx.scopes q.state.top (cx.scopes.scopeOf id)).current
      cx.scopes v).Holds _
    rw [State.mergeBack_current p.state hboundary fun hs => hopens.apart _ hs v hv rfl, ← hstate]
    exact hp.holds v hv

theorem ran_inScope {id : NodeId} {p : Progress} {ρ ρ' : Valuation} {w w' : World}
    (hopens : cx.scopes.OpensNone Δ id) (hran : Ran Δ (a cx p.child).2 ρ ρ' w w') :
    Ran Δ (Track.inScope id a cx p).2 ρ ρ' w w' ∧
      (Track.inScope id a cx p).2.frame = (a cx p.child).2.frame := by
  have hm := p.state.mergeBack_merged cx.scopes (a cx p.child).2.state.top (cx.scopes.scopeOf id)
  rw [inScope_apply hopens]
  exact ⟨hran.transfer (GrowsBy.refl NodeFacts.Below.refl _) (hm.parts _ List.mem_cons_self), rfl⟩

/-- Code with a scope that does not matter to the variables in force runs as it would without. -/
theorem Executes.inScope {id : NodeId} (h : Executes cx fs Δ ret ok a c)
    (hopens : cx.scopes.OpensNone Δ id) : Executes cx fs Δ ret ok (Track.inScope id a) c where
  moves :=
    Track.moves_inScope (fun _ _ => ⟨fun _ _ _ => trivial, fun _ _ => trivial⟩) h.moves
  runs := by
    intro p ρ w halive hp hw
    obtain ⟨ρ', hran, hret, hgo⟩ := h.runs rfl hp.child hw
    obtain ⟨hran', hframe⟩ := ran_inScope hopens hran
    refine ⟨ρ', hran', hret.grow ?_, fun hy =>
      follows_inScope hopens h.moves halive (hgo hy).1 (hgo hy).2⟩
    rw [hframe]
    exact ReturnsBelow.refl _

/-! ## Code that may stop anywhere -/

theorem unsure_place {b : Bounds} {p : Progress} {ρ ρ' : Valuation} {w w' : World}
    (hmoves : Track.Moves cx b a) (hp : Follows cx fs Δ p ρ)
    (hran : Ran Δ (a cx p.child).2 ρ ρ' w w') :
    Ran Δ (Track.unsure a cx p).2 ρ ρ' w w' ∧ Follows cx fs Δ (Track.unsure a cx p).2 ρ' ∧
      (Track.unsure a cx p).2.state.isDead = p.state.isDead := by
  set q := (a cx p.child).2 with hq
  obtain ⟨hm, hdead⟩ := p.state.mergeUnsure_merged cx.scopes q.state.top.written q.escaped
  have hcurrent (v : VarId) :=
    p.state.mergeUnsure_current cx.scopes q.state.top.written v q.escaped
  refine ⟨hran.transfer (GrowsBy.refl NodeFacts.Below.refl _) (hm.parts _ List.mem_cons_self),
    hp.unsure ?_ (fun v => (hcurrent v).1) (fun v => (hcurrent v).2.1) hran.covered, hdead⟩
  exact (hmoves p.child).scope.trans hp.scope

/-- After code that may stop anywhere the analysis goes on, however the code ended. -/
theorem Executes.unsure (h : Executes cx fs Δ ret ok a c) :
    Executes cx fs Δ ret (fun _ => True) (Track.unsure a) c where
  moves := Track.moves_unsure h.moves
  runs := by
    intro p ρ w halive hp hw
    obtain ⟨ρ', hran, hret, -⟩ := h.runs rfl hp.child hw
    obtain ⟨hran', hfollows, hdead⟩ := unsure_place h.moves hp hran
    exact ⟨ρ', hran', hret, fun _ => ⟨hdead.trans halive, hfollows⟩⟩

/-! ## Branches -/

/-- Steps that lead to the same places go together with the same runs. -/
theorem Executes.congr {a' : Track Unit} (h : Executes cx fs Δ ret ok a c)
    (ha : ∀ p, (a' cx p).2 = (a cx p).2) : Executes cx fs Δ ret ok a' c where
  moves := fun p => by rw [ha]; exact h.moves p
  runs := fun {p _ _} halive hp hw => by rw [ha]; exact h.runs halive hp hw

namespace Completes

variable {c e : Run Outcome}

/-- The run goes through code that the analysis took for code that may run. -/
theorem tried (h : Completes cx fs Δ a c) : Completes cx fs Δ (Track.tried a) c where
  moves := Track.moves_tried h.moves
  runs := by
    intro p ρ w halive hp hw
    obtain ⟨ρ', hran, hret, hgo⟩ := h.runs rfl hp.child hw
    refine ⟨ρ', Track.ran_tried hran, hret, fun hy => ⟨Track.dead_tried.trans halive, ?_⟩⟩
    exact Track.follows_tried h.moves (hgo hy).2 (hgo hy).1

/-- The run skips such code. -/
theorem skipped (h : Track.Moves cx .all a) :
    Completes cx fs Δ (Track.tried a) (return .normal) where
  moves := Track.moves_tried h
  runs := fun {_ ρ _} halive hp hw => ⟨ρ, Ran.refl _ hw, Returns.none _, fun _ =>
    ⟨Track.dead_tried.trans halive, Track.follows_tried_of_skip h hp⟩⟩

/-- The run goes through the first of two pieces. -/
theorem left (h : Completes cx fs Δ a c) (hd : Track.Moves cx .all d) :
    Completes cx fs Δ (discard (Track.either a d)) c where
  moves := (Track.moves_either h.moves hd).map
  runs := by
    intro p ρ w halive hp hw
    obtain ⟨ρ', hran, hret, hgo⟩ := h.runs rfl hp.child hw
    refine ⟨ρ', Track.ran_either_left hd hran, ?_, fun hy => ⟨?_, ?_⟩⟩
    · exact hret.grow (hd (Track.between cx a p).child).returns
    · refine Track.dead_either.trans ?_
      rw [halive, (hgo hy).1]
      rfl
    · exact Track.follows_either_left h.moves hd (hgo hy).2 (hgo hy).1

/-- The run goes through the second of two pieces. -/
theorem right (ha : Track.Moves cx .all a) (h : Completes cx fs Δ d e) :
    Completes cx fs Δ (discard (Track.either a d)) e where
  moves := (Track.moves_either ha h.moves).map
  runs := by
    intro p ρ w halive hp hw
    obtain ⟨ρ', hran, hret, hgo⟩ := h.runs rfl (Track.follows_between ha hp).child hw
    refine ⟨ρ', Track.ran_either_right hran, hret, fun hy => ⟨?_, ?_⟩⟩
    · refine Track.dead_either.trans ?_
      rw [halive, (hgo hy).1, Bool.and_false]
      rfl
    · exact Track.follows_either_right ha h.moves (hgo hy).2 (hgo hy).1

/-- A choice between a statement and nothing. -/
theorem branch_none {test : Track Tracked} {test' : Run Primitive}
    (ht : Evaluates cx fs Δ test test') (hyes : Completes cx fs Δ a c) :
    Completes cx fs Δ (Track.branch test a none) (do
      if (← test').truthy then c else return .normal) := by
  have hmoves : Track.Moves cx .all (Track.branch test a none) :=
    Track.moves_branch (fun p => (ht.moves p).mono (Bounds.within_all _)) hyes.moves nofun
  refine ht.andThen hmoves fun t x hx => ?_
  cases htruth : t.value.truthiness with
  | some truthy =>
    rw [show x.truthy = truthy from Value.truthy_of_truthiness hx htruth]
    cases truthy
    · exact Executes.skip rfl
    · exact hyes
  | none =>
    refine Executes.congr (a := Track.tried a) ?_ fun _ => rfl
    cases x.truthy
    · exact skipped hyes.moves
    · exact tried hyes

/-- A choice between two statements. -/
theorem branch_some {test : Track Tracked} {test' : Run Primitive}
    (ht : Evaluates cx fs Δ test test') (hyes : Completes cx fs Δ a c)
    (hno : Completes cx fs Δ d e) :
    Completes cx fs Δ (Track.branch test a (some d)) (do
      if (← test').truthy then c else e) := by
  have hmoves : Track.Moves cx .all (Track.branch test a (some d)) := by
    refine Track.moves_branch (fun p => (ht.moves p).mono (Bounds.within_all _)) hyes.moves ?_
    rintro x ⟨⟩
    exact hno.moves
  refine ht.andThen hmoves fun t x hx => ?_
  cases htruth : t.value.truthiness with
  | some truthy =>
    rw [show x.truthy = truthy from Value.truthy_of_truthiness hx htruth]
    cases truthy
    · exact hno
    · exact hyes
  | none =>
    refine Executes.congr (a := discard (Track.either a d)) ?_ fun _ => rfl
    cases x.truthy
    · exact right hyes.moves hno
    · exact left hyes hno.moves

end Completes

/-! ## Jumps -/

theorem completes_endControl {o : Outcome} (ho : o ≠ .normal) (hret : o.returned? = none) :
    Completes cx fs Δ Track.endControl (return o) where
  moves := Track.moves_endControl trivial
  runs := by
    intro p ρ w halive hp hw
    refine ⟨ρ, Ran.refl _ hw, ?_, fun h => absurd h ho⟩
    change Returns _ o.returned?
    rw [hret]
    exact Returns.none _

theorem completes_throwValue (value : Value) (x : Primitive) :
    Completes cx fs Δ (Track.throwValue value) (return .throw x) where
  moves := Track.moves_throwValue trivial value
  runs := fun {_ ρ _} _ _ hw => ⟨ρ, Ran.refl _ hw, Returns.none _, nofun⟩

theorem returnValue_returns (cx : Context) (value : Value) (p : Progress) :
    ∃ r, (Track.returnValue value cx p).2.frame.returns = some r ∧ value.Below r := by
  obtain ⟨r, hr, hbelow, -⟩ :=
    Track.returnsBelow_joinTo cx value (Track.escape value.references cx p).2
  exact ⟨r, hr, hbelow⟩

theorem completes_returnValue {value : Value} {x : Primitive} (h : value.Holds (.primitive x)) :
    Completes cx fs Δ (Track.returnValue value) (return .return x) where
  moves := Track.moves_returnValue trivial value
  runs := by
    intro p ρ w _ _ hw
    refine ⟨ρ, Ran.refl _ hw, ?_, nofun⟩
    rintro y ⟨⟩
    obtain ⟨r, hr, hbelow⟩ := returnValue_returns cx value p
    exact ⟨r, hr, hbelow _ h⟩

end

end EsOptimizer
