import EsOptimizer.Proofs.Simulation.Stmt

/-!
# Loops

A loop is followed as if its variables could be anything at the start of a round. So the first round
of the analysis already covers every round of every run: variables that the loop does not write are
what they were before it, and of the others nothing is assumed.
-/

namespace EsOptimizer

/-- What cannot be relied on in a round of a loop that writes the variables `vs`, after rounds that
wrote `acc`. -/
def Boundary.after (vs : VarSet) (acc : Written) : Boundary :=
  { vars := vs, refs := RefSet.ofList acc.heap.keys, reach := acc.reach }

/-- The place where such a round starts. -/
def Progress.round (p : Progress) (vs : VarSet) (acc : Written) : Progress :=
  { p with state := p.state.round (.after vs acc) }

section

variable {cx : Context} {fs : ScopeId} {Δ : Layout} {a : Track Unit} {b : Bounds} {vs : VarSet}
  {p : Progress} {ρ ρ' : Valuation} {w w' : World}

/-! ## Rounds of the analysis -/

theorem forIn_escape_state {α : Type} (cx : Context) (items : List α)
    (refs : α → List Reference) (p : Progress) : ((do for x in items do Track.escape (refs x) : Track Unit) cx p).2.state = p.state := by
  induction items generalizing p with
  | nil => rfl
  | cons x rest ih =>
    rw [List.forIn_cons]
    exact ih (Track.escape (refs x) cx p).2

theorem giveUp_state (acc : Written) (p : Progress) :
    (Track.giveUp acc cx p).2.state = p.state := by
  have hvars := forIn_escape_state cx acc.vars.toList (fun e => e.2.references) p
  refine Eq.trans ?_ hvars
  exact forIn_escape_state cx acc.heap.toList (fun e => e.2.references ++ [e.1]) _

theorem giveUp_below (acc : Written) (p : Progress) :
    Values.Below acc.vars (Track.giveUp acc cx p).1.vars := by
  intro v x hx
  refine ⟨.unknown, ?_, Value.below_unknown x⟩
  change (acc.vars.map fun _ _ => Value.unknown)[v]? = _
  rw [Std.TreeMap.getElem?_map, hx]
  rfl

/-- One round of the analysis, and those after it if it made a difference. -/
theorem rounds_succ (cx : Context) (vs : VarSet) (a : Track Unit) (n : Nat) (acc : Written)
    (p : Progress) : Track.rounds vs a (n + 1) acc cx p =
      (let q := (a cx (p.round vs acc)).2
      if (acc.absorb q.state.top.written).2 then
        Track.rounds vs a n (acc.absorb q.state.top.written).1 cx { q with state := p.state }
      else ((acc.absorb q.state.top.written).1, { q with state := p.state })) := by
  rw [Track.rounds]
  change (if (acc.absorb (a cx (p.round vs acc)).2.state.top.written).2 = true then _ else _ :
    Track Written) cx { (a cx (p.round vs acc)).2 with state := p.state } = _
  split <;> simp_all <;> rfl

/-- The rounds of the analysis start over from the same state, and only add to what was written. -/
theorem rounds_place (cx : Context) (vs : VarSet) (a : Track Unit) (n : Nat) (acc : Written)
    (p : Progress) :
    (Track.rounds vs a n acc cx p).2.state = p.state ∧
      Values.Below acc.vars (Track.rounds vs a n acc cx p).1.vars := by
  induction n generalizing acc p with
  | zero => exact ⟨giveUp_state acc p, giveUp_below acc p⟩
  | succ n ih =>
    rw [rounds_succ]
    dsimp only
    set q := (a cx (p.round vs acc)).2
    obtain ⟨hkeep, -⟩ := Written.absorb_vars acc q.state.top.written
    split
    · obtain ⟨hstate, hbelow⟩ := ih (acc.absorb q.state.top.written).1 { q with state := p.state }
      exact ⟨hstate, hkeep.trans hbelow⟩
    · exact ⟨rfl, hkeep⟩

theorem merging_apply (merge : ScopeTree → State → Escaping State) (p : Progress) :
    Track.merging merge cx p = ((), { p with
      state := (merge cx.scopes p.state p.escaped).1
      escaped := (merge cx.scopes p.state p.escaped).2 }) := rfl

/-- After a loop the analysis goes on, if its first round covers what the run did. -/
theorem loop_place (hmoves : Track.Moves cx b a) (hp : Follows cx fs Δ p ρ)
    (hran : Ran Δ (a cx (p.round vs {})).2 ρ ρ' w w') :
    Ran Δ (Track.loop vs a cx p).2 ρ ρ' w w' ∧ Follows cx fs Δ (Track.loop vs a cx p).2 ρ' ∧
      (Track.loop vs a cx p).2.state.isDead = p.state.isDead ∧
      ReturnsBelow (a cx (p.round vs {})).2.frame.returns
        (Track.loop vs a cx p).2.frame.returns := by
  rw [Track.loop, Track.bind_apply, Track.mergeUnsure, merging_apply]
  dsimp only
  set q := (a cx (p.round vs {})).2 with hq
  set r := Track.rounds vs a Track.maxRounds {} cx p with hr
  -- Later rounds only add to what the first one wrote and found.
  have hrounds : r.2.state = p.state ∧ Values.Below q.state.top.written.vars r.1.vars ∧
      Advances cx.scopes .all { q with state := p.state } r.2 := by
    have hfirst := rounds_succ cx vs a 31 {} p
    rw [← hq] at hfirst
    rw [hr, show Track.maxRounds = 31 + 1 from rfl, hfirst]
    dsimp only
    obtain ⟨-, hnew⟩ := Written.absorb_vars {} q.state.top.written
    split
    · obtain ⟨hstate, hbelow⟩ := rounds_place cx vs a 31
        (Written.absorb {} q.state.top.written).1 { q with state := p.state }
      refine ⟨hstate, hnew.trans hbelow, ?_⟩
      exact (Track.movesTo_rounds vs (fun p => (hmoves p).mono (Bounds.within_all _)) 31
        (fun _ h => absurd trivial h) _).2
    · exact ⟨rfl, hnew, Advances.refl _⟩
  obtain ⟨hstate, hwritten, hadvances⟩ := hrounds
  obtain ⟨hm, hdead⟩ := r.2.state.mergeUnsure_merged cx.scopes r.1 r.2.escaped
  have hcurrent (v : VarId) := r.2.state.mergeUnsure_current cx.scopes r.1 v r.2.escaped
  set merged := r.2.state.mergeUnsure cx.scopes r.1 r.2.escaped
  have hscope : r.2.frame.scope = fs :=
    hadvances.scope.trans ((hmoves (p.round vs {})).scope.trans hp.scope)
  refine ⟨hran.transfer hadvances.facts (hwritten.trans (hm.parts _ List.mem_cons_self)),
    hp.unsure hscope (fun v => ?_) (fun v => (hcurrent v).2.1) fun v hv => ?_, ?_,
    hadvances.returns⟩
  · rw [← hstate]
    exact (hcurrent v).1
  · rcases hran.covered v hv with heq | ⟨x, hx, hholds⟩
    · exact Or.inl heq
    · obtain ⟨y, hy, hxy⟩ := hwritten v x hx
      exact Or.inr ⟨y, hy, hxy _ hholds⟩
  · rw [← hstate]
    exact hdead

/-! ## Rounds of a run -/

/-- Code that writes only the variables `vs`. -/
def Bounds.writing (vs : VarSet) : Bounds := ⟨fun _ => True, (· ∈ vs), True⟩

theorem current_round {acc : Written} {v : VarId} (h : v ∈ vs) :
    (p.round vs acc).state.current cx.scopes v = .unknown := by
  refine State.current_of_lookup cx.scopes ?_
  refine (State.lookup_round p.state _ v).trans (if_pos ?_)
  exact Std.TreeSet.mem_iff_contains.mp h

theorem current_round_of_not_mem {acc : Written} {v : VarId} (h : v ∉ vs) :
    (p.round vs acc).state.current cx.scopes v = p.state.current cx.scopes v := by
  refine State.current_congr cx.scopes ?_
  refine (State.lookup_round p.state _ v).trans (if_neg ?_)
  exact fun hv => h (Std.TreeSet.mem_iff_contains.mpr hv)

/-- A round may start wherever the analysis of code that the loop repeats has come to. -/
theorem Follows.round {q : Progress} {acc : Written} (h : Follows cx fs Δ p ρ)
    (hmoves : Advances cx.scopes (.writing vs) p q) : Follows cx fs Δ (q.round vs acc) ρ := by
  refine ⟨hmoves.scope.trans h.scope, fun v hv => ?_⟩
  by_cases hvs : v ∈ vs
  · rw [current_round hvs]
    exact Value.holds_unknown _
  · rw [current_round_of_not_mem hvs, State.current_congr cx.scopes (hmoves.lookup hvs)]
    exact h.holds v hv

/-- What holds somewhere in a round of the analysis held at its start, as far as it is assumed. -/
theorem Follows.atStart {q : Progress} {acc : Written}
    (hmoves : Advances cx.scopes (.writing vs) (p.round vs acc) q) (h : Follows cx fs Δ q ρ) :
    Follows cx fs Δ (p.round vs acc) ρ := by
  refine ⟨hmoves.scope.symm.trans h.scope, fun v hv => ?_⟩
  by_cases hvs : v ∈ vs
  · rw [current_round hvs]
    exact Value.holds_unknown _
  · rw [← State.current_congr cx.scopes (hmoves.lookup hvs)]
    exact h.holds v hv

/-- After a round of a run, the next one is one that the analysis followed as well. -/
theorem Follows.again {q r : Progress} {acc : Written} (h : Follows cx fs Δ q ρ)
    (hmoves : Advances cx.scopes (.writing vs) (p.round vs acc) q)
    (hmoves' : Advances cx.scopes (.writing vs) (p.round vs acc) r) (hran : Ran Δ r ρ ρ' w w') :
    Follows cx fs Δ (p.round vs acc) ρ' := by
  have hstart := h.atStart hmoves
  refine ⟨hstart.scope, fun v hv => ?_⟩
  by_cases hvs : v ∈ vs
  · rw [current_round hvs]
    exact Value.holds_unknown _
  · have hwritten : r.state.top.written.vars[v]? = none := (hmoves'.untouched v hvs).written
    rcases hran.covered v hv with heq | ⟨x, hx, -⟩
    · rw [heq]
      exact hstart.holds v hv
    · rw [hwritten] at hx
      cases hx

end

namespace Run

/-- What comes between two tests of a loop, and the second of them. Nothing means that the loop goes
on. -/
def turn (labels : List String) (test : Run Bool) (body : Run Outcome) (update : Run Unit) :
    Run (Option Outcome) := do
  match (← body).leaves labels with
  | some outcome => return some outcome
  | none =>
    update
    if ← test then return none else return some .normal

/-- Turns of a loop, at most `n`. -/
def turns (turn : Run (Option Outcome)) : Nat → Run Outcome
  | 0 => return .cutOff
  | n + 1 => do
    match ← turn with
    | some outcome => return outcome
    | none => turns turn n

theorem turn_bind (labels : List String) (test : Run Bool) (body : Run Outcome)
    (update : Run Unit) (f : Option Outcome → Run Outcome) :
    turn labels test body update >>= f = (do
      match (← body).leaves labels with
      | some outcome => f (some outcome)
      | none =>
        update
        if ← test then f none else f (some .normal)) := by
  rw [turn, bind_assoc]
  refine congrArg (body >>= ·) (funext fun outcome => ?_)
  cases outcome.leaves labels with
  | some outcome => rfl
  | none =>
    dsimp only
    rw [bind_assoc]
    refine congrArg (update >>= ·) (funext fun _ => ?_)
    rw [bind_assoc]
    refine congrArg (test >>= ·) (funext fun t => ?_)
    cases t <;> rfl

theorem rounds_eq_turns (labels : List String) (test : Run Bool) (body : Run Outcome)
    (update : Run Unit) (n : Nat) : rounds labels test body update n = (do
      if ← test then turns (turn labels test body update) n else return .normal) := by
  induction n with
  | zero => rfl
  | succ n ih =>
    have hturns := turn_bind labels test body update fun
      | some outcome => return outcome
      | none => turns (turn labels test body update) n
    rw [rounds, ih]
    exact congrArg (fun t => do if ← test then t else return .normal) hturns.symm

theorem roundsAfter_eq_turns (labels : List String) (test : Run Bool) (body : Run Outcome)
    (n : Nat) :
    roundsAfter labels test body n = turns (turn labels test body (pure ())) (n + 1) := by
  have hturns := turn_bind labels test body (pure ()) fun
    | some outcome => return outcome
    | none => turns (turn labels test body (pure ())) n
  rw [roundsAfter, rounds_eq_turns]
  exact hturns.symm

end Run

/-! ## Loops -/

theorem Outcome.leaves_returned? (labels : List String) (o : Outcome) :
    (o.leaves labels).bind Outcome.returned? = o.returned? := by
  cases o with
  | «break» label => cases label <;> rfl
  | «continue» label =>
    cases label with
    | none => rfl
    | some label =>
      rw [leaves]
      split <;> rfl
  | _ => rfl

section

variable {cx : Context} {fs : ScopeId} {Δ : Layout} {q : Progress} {ρ : Valuation} {w : World}

/-- If each turn is covered by `q` and keeps an invariant, then so are all of them together. -/
theorem turns_ran {I : Valuation → Prop} {c : Run (Option Outcome)}
    (h : ∀ ρ w, I ρ → w.env = Δ.env ρ → ∃ ρ', Ran Δ q ρ ρ' w (c w).2 ∧
      Returns q ((c w).1.bind Outcome.returned?) ∧ ((c w).1 = none → I ρ')) (n : Nat)
    (hI : I ρ) (hw : w.env = Δ.env ρ) :
    ∃ ρ', Ran Δ q ρ ρ' w (Run.turns c n w).2 ∧ Returns q (Run.turns c n w).1.returned? := by
  induction n generalizing ρ w with
  | zero => exact ⟨ρ, Ran.refl _ hw, Returns.none _⟩
  | succ n ih =>
    obtain ⟨ρ', hran, hret, hkeep⟩ := h ρ w hI hw
    have happly : Run.turns c (n + 1) w = (match (c w).1 with
      | some outcome => return outcome
      | none => Run.turns c n : Run Outcome) (c w).2 := rfl
    rw [happly]
    cases ho : (c w).1 with
    | some outcome =>
      rw [ho] at hret
      exact ⟨ρ', hran, hret⟩
    | none =>
      obtain ⟨ρ'', hran', hret'⟩ := ih (hkeep ho) hran.env
      exact ⟨ρ'', hran.trans hran', hret'⟩

theorem Run.turn_apply (labels : List String) (test : Run Bool) (body : Run Outcome)
    (update : Run Unit) (w : World) : Run.turn labels test body update w =
      (match (body w).1.leaves labels with
      | some outcome => (some outcome, (body w).2)
      | none =>
        let u := (update (body w).2).2
        (if (test u).1 then none else some .normal, (test u).2)) := by
  change (match (body w).1.leaves labels with
    | some outcome => return some outcome
    | none => do
      update
      if ← test then return none else return some .normal : Run (Option Outcome)) (body w).2 = _
  cases (body w).1.leaves labels with
  | some outcome => rfl
  | none =>
    change (if (test (update (body w).2).2).1 = true then _ else _ : Run (Option Outcome))
      (test (update (body w).2).2).2 = _
    dsimp only
    cases (test (update (body w).2).2).1 <;> rfl

variable {vs : VarSet} {α β γ : Type} {test : Track α} {truth : Run Bool} {body : Track Unit}
  {body' : Run Outcome} {S : α → Bool → Prop} {P : α → Prop}

/-- A loop that tests after each round. -/
theorem survives_roundsAfter (hb : Completes cx fs Δ body body')
    (ht : Simulates cx fs Δ test truth S P) (hbody : Track.Moves cx (.writing vs) body)
    (htest : Track.Moves cx (.writing vs) test) (labels : List String) (n : Nat) :
    Survives cx fs Δ
      (Track.loop vs do
        Track.unsure body
        discard test)
      (Run.roundsAfter labels truth body' n) where
  moves := Track.moves_loop vs <| (Track.moves_unsure hb.moves).bind fun _ =>
    Track.Moves.map fun p => (ht.moves p).mono (Bounds.within_all _)
  runs := by
    intro p ρ w halive hp hw
    set a : Track Unit := do
      Track.unsure body
      discard test with ha
    have hmoves : Track.Moves cx (.writing vs) a :=
      (Track.moves_unsure hbody).bind fun _ => htest.map
    have hturn : ∀ ρ w, Follows cx fs Δ (p.round vs {}) ρ → w.env = Δ.env ρ →
        ∃ ρ', Ran Δ (a cx (p.round vs {})).2 ρ ρ' w (Run.turn labels truth body' (pure ()) w).2 ∧
          Returns (a cx (p.round vs {})).2
            ((Run.turn labels truth body' (pure ()) w).1.bind Outcome.returned?) ∧
          ((Run.turn labels truth body' (pure ()) w).1 = none →
            Follows cx fs Δ (p.round vs {}) ρ') := by
      intro ρ w hp hw
      obtain ⟨ρ₁, hran₁, hret, hgo⟩ := hb.unsure.runs rfl hp hw
      obtain ⟨ρ₂, hran₂, -⟩ := ht.runs (hgo trivial).2 hran₁.env
      set q := (Track.unsure body cx (p.round vs {})).2
      have htest : Advances cx.scopes .evaluating q (a cx (p.round vs {})).2 := ht.moves q
      rw [Run.turn_apply]
      cases hl : (body' w).1.leaves labels with
      | some outcome =>
        refine ⟨ρ₁, hran₁.advance htest, ?_, nofun⟩
        rw [← Outcome.leaves_returned? labels, hl] at hret
        exact hret.grow htest.returns
      | none =>
        have hran := (hran₁.advance htest).trans hran₂
        refine ⟨ρ₂, hran, ?_, fun _ => hp.again (Advances.refl _) (hmoves _) hran⟩
        dsimp only
        split <;> exact Returns.none _
    rw [Run.roundsAfter_eq_turns]
    obtain ⟨ρ', hran, hret⟩ := turns_ran hturn (n + 1) (hp.round (Advances.refl p)) hw
    obtain ⟨hran', hfollows, hdead, hreturns⟩ := loop_place hmoves hp hran
    exact ⟨ρ', hran', hret.grow hreturns, fun _ => ⟨hdead.trans halive, hfollows⟩⟩

section

variable {entered : α → Bool} {update : Track β} {update' : Run Unit} {R : β → Unit → Prop}
  {Q : β → Prop}

/-- A round of the analysis of a loop that tests first. -/
def Track.testing (test : Track α) (body : Track Unit) (update : Track β) : Track Unit := do
  discard test
  unsure body
  discard update

theorem Track.moves_testing {b : Bounds} (htest : Moves cx b test) (hbody : Moves cx b body)
    (hupdate : Moves cx b update) : Moves cx b (testing test body update) :=
  htest.map.bind fun _ => (moves_unsure hbody).bind fun _ => hupdate.map

/-- A turn of the run starts and ends behind the test in the round of the analysis. -/
theorem turn_ran {p : Progress} (hb : Completes cx fs Δ body body')
    (ht : Simulates cx fs Δ test truth S P) (hu : Simulates cx fs Δ update update' R Q)
    (hbody : Track.Moves cx (.writing vs) body) (htest : Track.Moves cx (.writing vs) test)
    (hupdate : Track.Moves cx (.writing vs) update) (labels : List String)
    (hp : Follows cx fs Δ (test cx (p.round vs {})).2 ρ) (hw : w.env = Δ.env ρ) :
    ∃ ρ', Ran Δ (Track.testing test body update cx (p.round vs {})).2 ρ ρ' w
        (Run.turn labels truth body' update' w).2 ∧
      Returns (Track.testing test body update cx (p.round vs {})).2
        ((Run.turn labels truth body' update' w).1.bind Outcome.returned?) ∧
      ((Run.turn labels truth body' update' w).1 = none →
        Follows cx fs Δ (test cx (p.round vs {})).2 ρ') := by
  set q := (test cx (p.round vs {})).2
  set r := (Track.testing test body update cx (p.round vs {})).2
  have hr : Advances cx.scopes (.writing vs) (p.round vs {}) r :=
    Track.moves_testing htest hbody hupdate _
  have hqr : Advances cx.scopes .all q r :=
    ((Track.moves_unsure hb.moves).bind fun _ =>
      Track.Moves.map fun p => (hu.moves p).mono (Bounds.within_all _)) q
  have halive : q.state.isDead = false := ht.alive rfl
  obtain ⟨ρ₁, hran₁, hret, hgo⟩ := hb.unsure.runs halive hp hw
  obtain ⟨ρ₂, hran₂, -⟩ := hu.runs (hgo trivial).2 hran₁.env
  have hlast : Advances cx.scopes .evaluating (Track.unsure body cx q).2 r := hu.moves _
  rw [Run.turn_apply]
  cases hl : (body' w).1.leaves labels with
  | some outcome =>
    refine ⟨ρ₁, hran₁.advance hlast, ?_, nofun⟩
    rw [← Outcome.leaves_returned? labels, hl] at hret
    exact hret.grow hlast.returns
  | none =>
    have hran := (hran₁.advance hlast).trans hran₂
    have hagain : Follows cx fs Δ (p.round vs {}) ρ₂ := hp.again (htest _) hr hran
    obtain ⟨ρ₃, hran₃, hp₃, -⟩ := ht.runs hagain hran.env
    refine ⟨ρ₃, hran.trans (hran₃.advance hqr), ?_, fun _ => hp₃⟩
    dsimp only
    split <;> exact Returns.none _

/-- A loop that tests before each round. The analysis leaves it out if the first test fails. -/
theorem survives_rounds (hb : Completes cx fs Δ body body')
    (ht : Simulates cx fs Δ test truth (fun x y => entered x = false → y = false) P)
    (hu : Simulates cx fs Δ update update' R Q) (hbody : Track.Moves cx (.writing vs) body)
    (htest : Track.Moves cx (.writing vs) test) (hupdate : Track.Moves cx (.writing vs) update)
    (labels : List String) (n : Nat) :
    Survives cx fs Δ
      (do if entered (← test) then Track.loop vs (Track.testing test body update))
      (Run.rounds labels truth body' update' n) where
  moves := by
    have hevaluate {δ : Type} {x : Track δ} (h : Track.Moves cx .evaluating x) :
        Track.Moves cx .all x := fun p => (h p).mono (Bounds.within_all _)
    refine (hevaluate ht.moves).bind fun _ => Track.Moves.ite (fun _ => ?_) fun _ =>
      Track.Moves.pure _
    exact Track.moves_loop vs
      (Track.moves_testing (hevaluate ht.moves) hb.moves (hevaluate hu.moves))
  runs := by
    intro p ρ w halive hp hw
    obtain ⟨ρ₁, hran₁, hp₁, hentered, -⟩ := ht.runs hp hw
    set p₁ := (test cx p).2
    have halive₁ : p₁.state.isDead = false := ht.alive halive
    have happly : Run.rounds labels truth body' update' n w =
        if (truth w).1 = true then
          Run.turns (Run.turn labels truth body' update') n (truth w).2
        else (.normal, (truth w).2) := by
      rw [Run.rounds_eq_turns]
      change (if (truth w).1 = true then _ else _ : Run Outcome) (truth w).2 = _
      split <;> rfl
    have happly' : (do
        if entered (← test) then Track.loop vs (Track.testing test body update) : Track Unit) cx p =
          (if entered (test cx p).1 = true then
            Track.loop vs (Track.testing test body update) cx p₁ else ((), p₁)) := by
      change (if entered (test cx p).1 = true then _ else _ : Track Unit) cx p₁ = _
      split <;> rfl
    rw [happly, happly']
    cases hent : entered (test cx p).1 with
    | false =>
      rw [if_neg Bool.false_ne_true, hentered hent, if_neg Bool.false_ne_true]
      exact ⟨ρ₁, hran₁, Returns.none _, fun _ => ⟨halive₁, hp₁⟩⟩
    | true =>
      rw [if_pos rfl]
      have hmoves := Track.moves_testing htest hbody hupdate
      -- The test in the first round is the same as the one before it.
      have hstart : Follows cx fs Δ (test cx (p₁.round vs {})).2 ρ₁ := by
        obtain ⟨ρ₂, hran₂, hp₂, -⟩ := ht.runs (hp.round (htest p)) hw
        refine ⟨hp₂.scope, fun v hv => ?_⟩
        rw [← Layout.eq_of_env_eq (hran₂.env.symm.trans hran₁.env) hv]
        exact hp₂.holds v hv
      have hturns : ∃ ρ', Ran Δ (Track.testing test body update cx (p₁.round vs {})).2 ρ₁ ρ'
          (truth w).2 (if (truth w).1 = true then
            Run.turns (Run.turn labels truth body' update') n (truth w).2
          else (.normal, (truth w).2)).2 ∧
          Returns (Track.testing test body update cx (p₁.round vs {})).2
            (if (truth w).1 = true then
              Run.turns (Run.turn labels truth body' update') n (truth w).2
            else (.normal, (truth w).2)).1.returned? := by
        split
        · exact turns_ran (fun _ _ => turn_ran hb ht hu hbody htest hupdate labels) n hstart
            hran₁.env
        · exact ⟨ρ₁, Ran.refl _ hran₁.env, Returns.none _⟩
      obtain ⟨ρ', hran, hret⟩ := hturns
      obtain ⟨hran', hfollows, hdead, hreturns⟩ := loop_place hmoves hp₁ hran
      have hran₁' := hran₁.advance (Track.moves_loop vs hmoves p₁)
      exact ⟨ρ', hran₁'.trans hran', hret.grow hreturns, fun _ => ⟨hdead.trans halive₁, hfollows⟩⟩

end

end

end EsOptimizer
