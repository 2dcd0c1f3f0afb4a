import EsOptimizer.Proofs.Analysis.Operators
import EsOptimizer.Proofs.Simulation.Follows

/-!
# Expressions

`Simulates` relates a step of the analysis to a step of a run: from places that go together they
come to places that go together, with results that go together. `Evaluates` is the case of an
expression: the value that was found holds the value of the run, and if the evaluation was found
pure then the run changed nothing.

There is one lemma for each way to put steps together that the analysis and the run share, and
`evaluates_onExpr` follows from them by induction.
-/

namespace EsOptimizer

/-- Evaluations may record any facts and write any variables, but control goes on. -/
def Bounds.evaluating : Bounds := ⟨fun _ => True, fun _ => True, False⟩

section

variable {α β γ δ : Type}

/-- A step `a` of the analysis and a step `c` of a run go together. Their results are related by
`R`, and results that satisfy `P` are found without changing a variable. -/
structure Simulates (cx : Context) (fs : ScopeId) (Δ : Layout) (a : Track α) (c : Run β)
    (R : α → β → Prop) (P : α → Prop) : Prop where
  moves : Track.Moves cx .evaluating a
  runs : ∀ {p ρ w}, Follows cx fs Δ p ρ → w.env = Δ.env ρ →
    ∃ ρ', Ran Δ (a cx p).2 ρ ρ' w (c w).2 ∧ Follows cx fs Δ (a cx p).2 ρ' ∧
      R (a cx p).1 (c w).1 ∧ (P (a cx p).1 → (c w).2.env = w.env)

/-- An evaluation: the value found holds that of the run, and a pure one changes nothing. -/
abbrev Evaluates (cx : Context) (fs : ScopeId) (Δ : Layout) (a : Track Tracked)
    (c : Run Primitive) : Prop :=
  Simulates cx fs Δ a c (fun t x => t.value.Holds (.primitive x)) (fun t => t.pure = true)

variable {cx : Context} {fs : ScopeId} {Δ : Layout} {a : Track α} {c : Run β} {R : α → β → Prop}
  {P : α → Prop}

namespace Simulates

theorem movesAll (h : Simulates cx fs Δ a c R P) : Track.Moves cx .all a :=
  fun p => (h.moves p).mono (Bounds.within_all _)

theorem pure {x : α} {y : β} (h : R x y) :
    Simulates cx fs Δ (Pure.pure x) (Pure.pure y) R P where
  moves := Track.Moves.pure x
  runs := fun {_ ρ _} hp hw => ⟨ρ, Ran.refl _ hw, hp, h, fun _ => rfl⟩

theorem bind {f : α → Track γ} {g : β → Run δ} {S : γ → δ → Prop} {Q : γ → Prop}
    (ha : Simulates cx fs Δ a c R P) (hmoves : Track.Moves cx .evaluating (a >>= f))
    (hf : ∀ x y, R x y → Simulates cx fs Δ (f x) (g y) S Q)
    (hpure : ∀ x p, Q (f x cx p).1 → P x) : Simulates cx fs Δ (a >>= f) (c >>= g) S Q where
  moves := hmoves
  runs := by
    intro p ρ w hp hw
    obtain ⟨ρ', hran, hq, hR, hP⟩ := ha.runs hp hw
    have hnext := hf _ _ hR
    obtain ⟨ρ'', hran', hr, hS, hQ⟩ := hnext.runs hq hran.env
    refine ⟨ρ'', (hran.advance (hnext.moves _)).trans hran', hr, hS, fun h => ?_⟩
    exact (hQ h).trans (hP (hpure _ _ h))

theorem map {f : α → γ} {g : β → δ} {S : γ → δ → Prop} {Q : γ → Prop}
    (ha : Simulates cx fs Δ a c R P) (hS : ∀ x y, R x y → S (f x) (g y))
    (hpure : ∀ x, Q (f x) → P x) :
    Simulates cx fs Δ (do return f (← a)) (do return g (← c)) S Q :=
  ha.bind (ha.moves.bind fun _ => Track.Moves.pure _) (fun x y h => pure (hS x y h))
    fun x _ h => hpure x h

/-- The run computes something from its result. -/
theorem mapRun {g : β → δ} {S : α → δ → Prop} {Q : α → Prop} (ha : Simulates cx fs Δ a c R P)
    (hS : ∀ x y, R x y → S x (g y)) (hpure : ∀ x, Q x → P x) :
    Simulates cx fs Δ a (do return g (← c)) S Q where
  moves := ha.moves
  runs := by
    intro p ρ w hp hw
    obtain ⟨ρ', hran, hq, hR, hP⟩ := ha.runs hp hw
    exact ⟨ρ', hran, hq, hS _ _ hR, fun h => hP (hpure _ h)⟩

/-- A step of the analysis that does nothing to variables, while the run computes a value. -/
theorem quiet {a : Track α} {y : β} (hmoves : Track.Moves cx .none a)
    (hR : ∀ p, R (a cx p).1 y) : Simulates cx fs Δ a (Pure.pure y) R P where
  moves := fun p => (hmoves p).mono (Bounds.none_within _)
  runs := fun {p ρ _} hp hw =>
    ⟨ρ, Ran.refl _ hw, hp.advance (hmoves p) fun _ _ => id, hR p, fun _ => rfl⟩

end Simulates

/-! ## Recording -/

theorem record_facts (cx : Context) (id : NodeId) (t : Tracked) (p : Progress) :
    ∃ f, (Track.record id t cx p).2.nodeFacts[id]? = some f ∧ t.value.Below f.value ∧
      (f.pure = true → t.pure = true) := by
  refine ⟨_, Std.TreeMap.getElem?_insert_self, ?_⟩
  split
  · exact ⟨Value.Below.refl _, fun h => h⟩
  · exact ⟨Value.below_or_right _ _, fun h => (Bool.and_eq_true_iff.mp h).2⟩

theorem Evaluates.recorded {a : Track Tracked} {c : Run Primitive} (h : Evaluates cx fs Δ a c)
    (id : NodeId) : Evaluates cx fs Δ (Track.recorded id a) (Run.evaluated id c) where
  moves := Track.moves_recorded trivial h.moves
  runs := by
    intro p ρ w hp hw
    obtain ⟨ρ', hran, hq, hvalue, hpure⟩ := h.runs hp hw
    set t := (a cx p).1
    set q := (a cx p).2
    -- Recording and notifying leave the variables alone.
    have hnotify : Advances cx.scopes .none (Track.record id t cx q).2
        (Track.recorded id a cx p).2 := Track.moves_notify .expr id _
    have hrecord : Advances cx.scopes ⟨fun _ => True, fun _ => False, False⟩ q
        (Track.recorded id a cx p).2 :=
      (Track.moves_record trivial t q).trans (hnotify.mono (Bounds.none_within _))
    refine ⟨ρ', ?_, hq.advance hrecord fun _ _ h => h, hvalue, hpure⟩
    obtain ⟨henv, ⟨new, htrace, hnew⟩, hcovered⟩ := hran.advance hrecord
    refine ⟨henv, ⟨⟨id, w.env, (c w).1, (c w).2.env⟩ :: new, congrArg _ htrace, ?_⟩, hcovered⟩
    intro ev hev
    rcases List.mem_cons.mp hev with rfl | hev
    · obtain ⟨f, hf, hbelow, hfpure⟩ := record_facts cx id t q
      exact Explains.grow ⟨f, hf, hbelow _ hvalue, fun h => hpure (hfpure h)⟩ hnotify.facts
    · exact hnew ev hev

/-! ## Names -/

/-- The analysis knows the values of the global constants that are read from the run before. -/
def Context.Knows (cx : Context) (constants : List String) : Prop :=
  ∀ i v, i.name ∈ constants → cx.scopes.IsConstant i v →
    ∃ x, globalConstant? i.name = some x ∧
      (cx.prev.possible.getD (.global i.name) .unknown).Holds (.primitive x)

theorem isForeign_own {v : VarId} {p : Progress} (h : cx.scopes.IsFollowed fs v)
    (hp : p.frame.scope = fs) : Track.isForeign (cx.scopes.var v) cx p = (false, p) := by
  have hscope : ((cx.scopes.var v).fnScope != p.frame.scope) = false := by
    rw [h.fnScope, hp, bne_self_eq_false]
  change ((cx.scopes.var v).hasForeignWrites || (cx.scopes.var v).fnScope != p.frame.scope, p) = _
  rw [h.ownWrites, hscope]
  rfl

/-- Reading a variable changes nothing. -/
theorem readVar_apply (v : VarId) (p : Progress) : Track.readVar v cx p =
    (if (cx.scopes.var v).isGlobal && !cx.options.noGlobalPropertyOverwrites &&
        !(cx.scopes.var v).isPristine then .unknown
      else if (cx.scopes.var v).hasForeignWrites || (cx.scopes.var v).fnScope != p.frame.scope then
        cx.prev.possible.getD (cx.scopes.var v).key .unknown
      else p.state.current cx.scopes v, p) := by
  have happly : Track.readVar v cx p =
      (if (cx.scopes.var v).isGlobal && !cx.options.noGlobalPropertyOverwrites &&
          !(cx.scopes.var v).isPristine then pure .unknown
        else do
          if ← Track.isForeign (cx.scopes.var v) then
            return cx.prev.possible.getD (cx.scopes.var v).key .unknown
          else return (← Track.getState).current cx.scopes v : Track Value) cx p := rfl
  rw [happly]
  split
  · rfl
  · change (if ((cx.scopes.var v).hasForeignWrites ||
      (cx.scopes.var v).fnScope != p.frame.scope) = true then _ else _ : Track Value) cx p = _
    split <;> rfl

/-- A name whose variable exists is read without effect. -/
theorem Track.readIdent_apply (i : Ident) (mayThrow : Bool) : Track.readIdent i mayThrow cx =
    (match cx.scopes.varOf i.id with
      | none => return .ofPure .unknown
      | some id => do
        let v ← Track.getVar id
        let value ← Track.readVar id
        let unassigned := ((← Track.getState).lookup id).isNone && v.initial.isNone
        let throws := unassigned &&
          (v.kind = .implicit || (v.isBlockScoped && v.fnScope = (← get).frame.scope))
        if throws && mayThrow then
          Track.noteEffect
          return .ofImpure value
        else return .ofPure value : Track Tracked) cx := rfl

theorem readIdent_eq {i : Ident} {v : VarId} {p : Progress} (mayThrow : Bool)
    (hi : cx.scopes.varOf i.id = some v)
    (hexists : (cx.scopes.var v).initial.isSome = true ∨
      ((cx.scopes.var v).kind ≠ .implicit ∧ (cx.scopes.var v).isBlockScoped = false)) :
    Track.readIdent i mayThrow cx p = (.ofPure (Track.readVar v cx p).1, p) := by
  have hthrows : (((p.state.lookup v).isNone && (cx.scopes.var v).initial.isNone) &&
      (decide ((cx.scopes.var v).kind = .implicit) || (cx.scopes.var v).isBlockScoped &&
        decide ((cx.scopes.var v).fnScope = p.frame.scope)) && mayThrow) = false := by
    rcases hexists with h | ⟨hkind, hblock⟩
    · simp [Option.isNone_eq_false_iff.mpr h]
    · simp [hkind, hblock]
  have hread : (Track.readVar v cx p).2 = p := by rw [readVar_apply]
  rw [Track.readIdent_apply, hi]
  simp only [Track.bind_apply]
  change (if (((Track.readVar v cx p).2.state.lookup v).isNone && (cx.scopes.var v).initial.isNone &&
      (decide ((cx.scopes.var v).kind = .implicit) || (cx.scopes.var v).isBlockScoped &&
        decide ((cx.scopes.var v).fnScope = (Track.readVar v cx p).2.frame.scope)) &&
      mayThrow) = true then _ else _ : Track Tracked) cx (Track.readVar v cx p).2 = _
  rw [hread, if_neg (by rw [hthrows]; exact Bool.false_ne_true)]
  rfl

theorem readVar_own {v : VarId} {p : Progress} (h : cx.scopes.Owns fs v)
    (hp : p.frame.scope = fs) : (Track.readVar v cx p).1 = p.state.current cx.scopes v := by
  have hscope : ((cx.scopes.var v).fnScope != p.frame.scope) = false := by
    rw [h.fnScope, hp, bne_self_eq_false]
  rw [readVar_apply, h.notGlobal, h.ownWrites, hscope]
  rfl

theorem readVar_constant {i : Ident} {v : VarId} {p : Progress} (h : cx.scopes.IsConstant i v)
    (hp : p.frame.scope ≠ ScopeTree.root) :
    (cx.prev.possible.getD (.global i.name) .unknown).Below (Track.readVar v cx p).1 := by
  have hscope : ((cx.scopes.var v).fnScope != p.frame.scope) = true := by
    rw [h.fnScope]
    exact bne_iff_ne.mpr (Ne.symm hp)
  rw [readVar_apply, hscope, Bool.or_true, h.key]
  split
  · exact Value.below_unknown _
  · exact Value.Below.refl _

/-- What reading a name of plain code finds holds its value. -/
theorem evaluates_readIdent {constants : List String} {i : Ident} (mayThrow : Bool)
    (hΔ : Δ.Valid cx.scopes fs) (hfs : fs ≠ ScopeTree.root) (hcx : cx.Knows constants)
    (h : (Expr.ident i).Bound cx.scopes constants Δ) :
    Evaluates cx fs Δ (Track.readIdent i mayThrow) (Run.readName i.name) where
  moves := Track.moves_readIdent i mayThrow
  runs := by
    intro p ρ w hp hw
    rw [Expr.Bound] at h
    rcases h with ⟨v, hlookup, hvar⟩ | ⟨hlookup, hmem, v, hconstant⟩
    · have howns := hΔ.owns v (Layout.mem_vars_of_lookup hlookup)
      have hexists : (cx.scopes.var v).kind ≠ .implicit ∧
          (cx.scopes.var v).isBlockScoped = false := by
        rcases howns.kind with hk | hk | hk <;> simp [Variable.isBlockScoped, hk]
      rw [readIdent_eq mayThrow hvar (Or.inr hexists), readVar_own howns hp.scope]
      refine ⟨ρ, Ran.refl _ hw, hp, ?_, fun _ => rfl⟩
      change (p.state.current cx.scopes v).Holds (.primitive (w.env.read i.name))
      rw [hw, Layout.read_env ρ hlookup]
      exact hp.holds v (Layout.mem_vars_of_lookup hlookup)
    · obtain ⟨x, hx, hholds⟩ := hcx i v hmem hconstant
      have hinitial : (cx.scopes.var v).initial.isSome = true := by
        rw [hconstant.initial]
        exact hconstant.global
      rw [readIdent_eq mayThrow hconstant.varOf (Or.inl hinitial)]
      refine ⟨ρ, Ran.refl _ hw, hp, ?_, fun _ => rfl⟩
      change (Track.readVar v cx p).1.Holds (.primitive (w.env.read i.name))
      rw [hw, Env.read, Layout.lookup_env, hlookup, hx]
      exact readVar_constant hconstant (by rwa [hp.scope]) _ hholds

/-! ## Assignments -/

/-- Assigning a variable of its own, a function sets its value. -/
theorem writeVar_own {v : VarId} {p : Progress} (value : Value) (h : cx.scopes.IsFollowed fs v)
    (hp : p.frame.scope = fs) :
    (Track.writeVar v value cx p).2.state = p.state.setValue v value ∧
      (Track.writeVar v value cx p).2.frame = p.frame := by
  have hforeign : Track.isForeign (cx.scopes.var v) cx
      (Track.addPossible (cx.scopes.var v).key value cx p).2 =
        (false, (Track.addPossible (cx.scopes.var v).key value cx p).2) := isForeign_own h hp
  have happly : Track.writeVar v value cx p = (do
      if ← Track.isForeign (cx.scopes.var v) then Track.noteEffect
      else Track.modifyState (·.setValue v value) : Track Unit) cx
        (Track.addPossible (cx.scopes.var v).key value cx p).2 := rfl
  rw [happly, Track.bind_apply, hforeign, if_neg Bool.false_ne_true]
  exact ⟨rfl, rfl⟩

/-- A variable gets a value that is one of those found for it. -/
theorem Follows.writeVar {p : Progress} {ρ : Valuation} {v : VarId} {value : Value} {x : Primitive}
    (hp : Follows cx fs Δ p ρ) (hv : cx.scopes.IsFollowed fs v) (h : value.Holds (.primitive x)) :
    Follows cx fs Δ (Track.writeVar v value cx p).2 (ρ.set v x) := by
  obtain ⟨hstate, hframe⟩ := writeVar_own value hv hp.scope
  refine ⟨by rw [hframe]; exact hp.scope, fun u hu => ?_⟩
  rw [hstate, State.current, State.setValue_lookup]
  by_cases huv : u = v
  · rw [if_pos huv.symm, Valuation.set, if_pos huv]
    exact h
  · rw [if_neg fun hvu => huv hvu.symm, Valuation.set, if_neg huv]
    exact hp.holds u hu

theorem simulates_writeVar {v : VarId} {name : String} {value : Value} {x : Primitive}
    (hΔ : Δ.Valid cx.scopes fs) (hlookup : Δ.lookup name = some v)
    (h : value.Holds (.primitive x)) :
    Simulates cx fs Δ (Track.writeVar v value) (Run.assignName name x) (fun _ _ => True)
      (fun _ => False) where
  moves := Track.moves_writeVar trivial value
  runs := by
    intro p ρ w hp hw
    have howns := hΔ.owns v (Layout.mem_vars_of_lookup hlookup)
    obtain ⟨hstate, -⟩ := writeVar_own value howns.toIsFollowed hp.scope
    refine ⟨ρ.set v x, ⟨?_, ⟨[], rfl, nofun⟩, fun u hu => ?_⟩, hp.writeVar howns.toIsFollowed h,
      trivial, nofun⟩
    · change w.env.assign name x = _
      rw [hw, Layout.assign_env hΔ.nodup ρ x hlookup]
    · by_cases huv : u = v
      · subst huv
        obtain ⟨-, y, hy, hbelow⟩ := p.state.setValue_written u value
        refine Or.inr ⟨y, by rw [hstate]; exact hy, ?_⟩
        rw [Valuation.set, if_pos rfl]
        exact hbelow _ h
      · exact Or.inl (if_neg huv)

theorem Track.initIdent_apply (i : Ident) (value : Value) : Track.initIdent i value cx =
    (match cx.scopes.varOf i.id with
      | none => return
      | some id => Track.writeVar id value : Track Unit) cx := rfl

theorem initIdent_eq {i : Ident} {v : VarId} (value : Value) (h : cx.scopes.varOf i.id = some v) :
    Track.initIdent i value cx = Track.writeVar v value cx := by
  rw [Track.initIdent_apply, h]

theorem Track.assignIdent_apply (i : Ident) (value : Value) : Track.assignIdent i value cx =
    (match cx.scopes.varOf i.id with
      | none => return
      | some id => do
        if (← Track.getVar id).kind = .const then Track.noteEffect
        else Track.writeVar id value : Track Unit) cx := rfl

theorem assignIdent_eq {i : Ident} {v : VarId} (value : Value) (h : cx.scopes.varOf i.id = some v)
    (hkind : (cx.scopes.var v).kind ≠ .const) :
    Track.assignIdent i value cx = Track.writeVar v value cx := by
  rw [Track.assignIdent_apply, h]
  change (if (cx.scopes.var v).kind = .const then Track.noteEffect
    else Track.writeVar v value : Track Unit) cx = _
  rw [if_neg hkind]

/-- Steps that are the same in this context go together with the same runs. -/
theorem Simulates.congr {a' : Track α} (h : Simulates cx fs Δ a c R P) (ha : a' cx = a cx) :
    Simulates cx fs Δ a' c R P where
  moves := fun p => by rw [ha]; exact h.moves p
  runs := fun hp hw => by rw [ha]; exact h.runs hp hw

theorem simulates_initIdent {i : Ident} {value : Value} {x : Primitive}
    (hΔ : Δ.Valid cx.scopes fs) (hi : cx.scopes.Assigns Δ i) (h : value.Holds (.primitive x)) :
    Simulates cx fs Δ (Track.initIdent i value) (Run.assignName i.name x) (fun _ _ => True)
      (fun _ => False) := by
  obtain ⟨v, hlookup, hwritten⟩ := hi
  exact (simulates_writeVar hΔ hlookup h).congr
    (initIdent_eq value (ScopeTree.varOf_of_writtenBy? hwritten))

theorem simulates_assignIdent {i : Ident} {value : Value} {x : Primitive}
    (hΔ : Δ.Valid cx.scopes fs) (hi : cx.scopes.Assigns Δ i) (h : value.Holds (.primitive x)) :
    Simulates cx fs Δ (Track.assignIdent i value) (Run.assignName i.name x) (fun _ _ => True)
      (fun _ => False) := by
  obtain ⟨v, hlookup, hwritten⟩ := hi
  have hkind : (cx.scopes.var v).kind ≠ .const := by
    rcases (hΔ.owns v (Layout.mem_vars_of_lookup hlookup)).kind with hk | hk | hk <;> simp [hk]
  exact (simulates_writeVar hΔ hlookup h).congr
    (assignIdent_eq value (ScopeTree.varOf_of_writtenBy? hwritten) hkind)

theorem ScopeTree.Assigns.bound {scopes : ScopeTree} {i : Ident} (constants : List String)
    (h : scopes.Assigns Δ i) : (Expr.ident i).Bound scopes constants Δ := by
  obtain ⟨v, hlookup, hwritten⟩ := h
  rw [Expr.Bound]
  exact Or.inl ⟨v, hlookup, varOf_of_writtenBy? hwritten⟩

theorem binary_isSome_of_assign {op : AssignOp} {o : BinaryOp} (h : op.binary? = some o)
    (x y : Primitive) : ∃ z, Primitive.binary o x y = some z := by
  cases op <;> cases h <;> exact ⟨_, rfl⟩

/-- The value to assign holds that of the run. -/
theorem simulates_assigned {op : AssignOp} {i : Ident} {right : Track Tracked}
    {right' : Run Primitive} {constants : List String} (hΔ : Δ.Valid cx.scopes fs)
    (hfs : fs ≠ ScopeTree.root) (hcx : cx.Knows constants) (hi : cx.scopes.Assigns Δ i)
    (h : Evaluates cx fs Δ right right') :
    Simulates cx fs Δ (Track.assigned op (Track.readIdent i true) right)
      (Run.assigned op i.name right') (fun v x => v.Holds (.primitive x)) (fun _ => False) := by
  have hread := evaluates_readIdent true hΔ hfs hcx (hi.bound constants)
  have hbinary (o : BinaryOp) (u v : Value) : Track.Moves cx .none (do
      return (← Track.binary o u v).value) :=
    (Track.moves_binary o u v).bind fun _ => Track.Moves.pure _
  have hmoves := Track.moves_assigned op hread.moves h.moves
  unfold Track.assigned Run.assigned at *
  cases ho : op.binary? with
  | none => exact h.map (g := id) (fun _ _ hvalue => hvalue) fun _ hfalse => hfalse.elim
  | some o =>
    rw [ho] at hmoves
    refine hread.bind hmoves (fun old x hx => ?_) fun _ _ hfalse => hfalse.elim
    refine h.bind (h.moves.bind fun _ p => (hbinary o _ _ p).mono (Bounds.none_within _))
      (fun t y hy => ?_) fun _ _ hfalse => hfalse.elim
    obtain ⟨z, hz⟩ := binary_isSome_of_assign ho x y
    rw [hz]
    exact Simulates.quiet (hbinary o _ _) fun p => Track.binary_holds hx hy hz cx p

theorem evaluates_assignToIdent {op : AssignOp} {i : Ident} {right : Track Tracked}
    {right' : Run Primitive} {constants : List String} (hΔ : Δ.Valid cx.scopes fs)
    (hfs : fs ≠ ScopeTree.root) (hcx : cx.Knows constants) (hi : cx.scopes.Assigns Δ i)
    (h : Evaluates cx fs Δ right right') :
    Evaluates cx fs Δ (Track.assignToIdent op i right) (do
      let value ← Run.assigned op i.name right'
      Run.assignName i.name value
      return value) := by
  refine (simulates_assigned hΔ hfs hcx hi h).bind
    (Track.moves_assignToIdent op (fun _ _ => trivial) h.moves) (fun value x hx => ?_)
    fun _ _ h => Bool.false_ne_true h
  have hassign := simulates_assignIdent hΔ hi hx
  exact hassign.bind (hassign.moves.bind fun _ => Track.Moves.pure _)
    (fun _ _ _ => Simulates.pure hx) fun _ _ h => Bool.false_ne_true h

theorem evaluates_updateIdent {op : UpdateOp} {before : Bool} {i : Ident}
    {constants : List String} (hΔ : Δ.Valid cx.scopes fs) (hfs : fs ≠ ScopeTree.root)
    (hcx : cx.Knows constants) (hi : cx.scopes.Assigns Δ i) :
    Evaluates cx fs Δ (Track.updateIdent op before i) (Run.updateName op before i.name) := by
  refine (evaluates_readIdent true hΔ hfs hcx (hi.bound constants)).bind
    (Track.moves_updateIdent op before fun _ _ => trivial) (fun old x hx => ?_)
    fun _ _ h => absurd h Bool.false_ne_true
  -- The run computes both numbers at once.
  have hupdated : Simulates cx fs Δ (Track.updated op old.value)
      (pure (x.toNumber, x.toNumber.add (Track.updateStep op)))
      (fun v n => v.1.Holds (.primitive (.number n.1)) ∧ v.2.Holds (.primitive (.number n.2)))
      (fun _ => False) :=
    Simulates.quiet (Track.moves_updated op _) fun p => Track.updated_holds hx cx p
  have hassign (values : Value × Value) : Track.Moves cx .evaluating (do
      Track.assignIdent i values.2
      return Track.updateOutcome before values) :=
    (Track.moves_assignIdent (fun _ _ => trivial) _).bind fun _ => Track.Moves.pure _
  refine hupdated.bind (Q := fun t => t.pure = true) (g := fun n => do
      Run.assignName i.name (.number n.2)
      return Primitive.number (if before then n.2 else n.1))
    (hupdated.moves.bind hassign) (fun v n hn => ?_) fun _ _ h => Bool.false_ne_true h
  refine (simulates_assignIdent hΔ hi hn.2).bind (hassign v) (fun _ _ _ => Simulates.pure ?_)
    fun _ _ h => Bool.false_ne_true h
  unfold Track.updateOutcome
  cases before
  · exact hn.1
  · exact hn.2

/-! ## Choices -/

namespace Simulates

variable {d : Track γ} {e : Run δ} {S : γ → δ → Prop} {Q : γ → Prop}

theorem alive (ha : Simulates cx fs Δ a c R P) {p : Progress} (hp : p.state.isDead = false) :
    (a cx p).2.state.isDead = false :=
  ((ha.moves p).alive fun h => h).trans hp

/-- The run goes through code that the analysis took for code that may run. -/
theorem tried (ha : Simulates cx fs Δ a c R P) : Simulates cx fs Δ (Track.tried a) c R P where
  moves := Track.moves_tried ha.moves
  runs := by
    intro p ρ w hp hw
    obtain ⟨ρ', hran, hq, hR, hP⟩ := ha.runs hp.child hw
    exact ⟨ρ', Track.ran_tried hran, Track.follows_tried ha.moves hq (ha.alive rfl), hR, hP⟩

/-- The run skips such code. -/
theorem skipped (ha : Track.Moves cx .evaluating a) (y : β) :
    Simulates cx fs Δ (Track.tried a) (Pure.pure y) (fun _ z => z = y) (fun _ => True) where
  moves := Track.moves_tried ha
  runs := fun {_ ρ _} hp hw =>
    ⟨ρ, Ran.refl _ hw, Track.follows_tried_of_skip ha hp, rfl, fun _ => rfl⟩

/-- The run goes through the first of two pieces. -/
theorem left (ha : Simulates cx fs Δ a c R P) (hd : Track.Moves cx .evaluating d) :
    Simulates cx fs Δ (Track.either a d) c (fun r y => R r.1 y) (fun r => P r.1) where
  moves := Track.moves_either ha.moves hd
  runs := by
    intro p ρ w hp hw
    obtain ⟨ρ', hran, hq, hR, hP⟩ := ha.runs hp.child hw
    exact ⟨ρ', Track.ran_either_left hd hran,
      Track.follows_either_left ha.moves hd hq (ha.alive rfl), hR, hP⟩

/-- The run goes through the second of two pieces. -/
theorem right (ha : Track.Moves cx .evaluating a) (hd : Simulates cx fs Δ d e S Q) :
    Simulates cx fs Δ (Track.either a d) e (fun r y => S r.2 y) (fun r => Q r.2) where
  moves := Track.moves_either ha hd.moves
  runs := by
    intro p ρ w hp hw
    obtain ⟨ρ', hran, hq, hS, hQ⟩ := hd.runs (Track.follows_between ha hp).child hw
    exact ⟨ρ', Track.ran_either_right hran,
      Track.follows_either_right ha hd.moves hq (hd.alive rfl), hS, hQ⟩

end Simulates

/-- The same outcome after parts that were pure, or not. -/
theorem Evaluates.after {right : Track Tracked} {right' : Run Primitive}
    (h : Evaluates cx fs Δ right right') (pure : Bool) :
    Evaluates cx fs Δ (do return (← right).after pure) right' :=
  h.map (g := id) (fun _ _ hvalue => hvalue) fun _ hp => (Bool.and_eq_true_iff.mp hp).2

/-- The join of two values, of which one is held. -/
theorem evaluates_join {u v : Value} {x : Primitive} (pure : Bool)
    (h : u.Holds (.primitive x) ∨ v.Holds (.primitive x)) :
    Evaluates cx fs Δ (do return ⟨← Track.join u v, pure⟩) (return x) := by
  refine Simulates.quiet ((Track.moves_join u v).bind fun _ => Track.Moves.pure _) fun p => ?_
  change ((Escaping.join u v) p.escaped).1.Holds _
  rw [Escaping.gives_join u v]
  rcases h with h | h
  · exact h.or_left
  · exact h.or_right

theorem Evaluates.logical {left right : Track Tracked} {left' right' : Run Primitive} (isOr : Bool)
    (hl : Evaluates cx fs Δ left left') (hr : Evaluates cx fs Δ right right') :
    Evaluates cx fs Δ (Track.logical isOr left right) (Run.logical isOr left' right') := by
  refine hl.bind (Track.moves_logical isOr hl.moves hr.moves) (fun t x hx => ?_) fun t p hp => ?_
  · cases ht : t.value.truthiness with
    | some truthy =>
      rw [show x.truthy = truthy from Value.truthy_of_truthiness hx ht]
      dsimp only
      split
      · exact Simulates.pure hx
      · exact hr.after t.pure
    | none =>
      -- The right side may run, and what is kept of the left side is held if it does not.
      have hmoves : Track.Moves cx .evaluating (do
          let r ← Track.tried right
          return (⟨← Track.join (t.value.filter (·.truthy == isOr)) r.value, t.pure && r.pure⟩ :
            Tracked)) :=
        (Track.moves_tried hr.moves).bind fun _ => (Track.moves_join _ _).bind fun _ =>
          Track.Moves.pure _
      by_cases htruthy : x.truthy = isOr
      · have hkept : (t.value.filter (·.truthy == isOr)).Holds (.primitive x) :=
          hx.filter fun s hs => by rw [← Single.truthy_congr hs]; exact beq_iff_eq.mpr htruthy
        rw [if_pos htruthy]
        exact (Simulates.skipped hr.moves x).bind (g := pure) hmoves
          (fun r y hy => hy ▸ evaluates_join _ (Or.inl hkept)) fun _ _ _ => trivial
      · rw [if_neg htruthy]
        exact hr.tried.bind (g := pure) hmoves
          (fun r y hy => evaluates_join _ (Or.inr hy)) fun _ _ h => (Bool.and_eq_true_iff.mp h).2
  · cases ht : t.value.truthiness with
    | none =>
      rw [ht] at hp
      exact (Bool.and_eq_true_iff.mp hp).1
    | some truthy =>
      rw [ht] at hp
      dsimp only at hp
      by_cases htruthy : truthy = isOr
      · rw [if_pos htruthy] at hp
        exact hp
      · rw [if_neg htruthy] at hp
        exact (Bool.and_eq_true_iff.mp hp).1

theorem Evaluates.choose {test yes no : Track Tracked} {test' yes' no' : Run Primitive}
    (ht : Evaluates cx fs Δ test test') (hy : Evaluates cx fs Δ yes yes')
    (hn : Evaluates cx fs Δ no no') :
    Evaluates cx fs Δ (Track.choose test yes no) (do
      if (← test').truthy then yes' else no') := by
  refine ht.bind (Track.moves_choose ht.moves hy.moves hn.moves) (fun t x hx => ?_) fun t p hp => ?_
  · cases htruth : t.value.truthiness with
    | some truthy =>
      rw [show x.truthy = truthy from Value.truthy_of_truthiness hx htruth]
      cases truthy
      · exact hn.after t.pure
      · exact hy.after t.pure
    | none =>
      have hmoves : Track.Moves cx .evaluating (do
          let r ← Track.either yes no
          return (⟨← Track.join r.1.value r.2.value, t.pure && r.1.pure && r.2.pure⟩ : Tracked)) :=
        (Track.moves_either hy.moves hn.moves).bind fun _ => (Track.moves_join _ _).bind fun _ =>
          Track.Moves.pure _
      cases x.truthy with
      | true =>
        refine (hy.left hn.moves).bind (g := pure) hmoves
          (fun r y hv => evaluates_join _ (Or.inl hv)) fun _ _ h => ?_
        exact (Bool.and_eq_true_iff.mp (Bool.and_eq_true_iff.mp h).1).2
      | false =>
        refine (Simulates.right hy.moves hn).bind (g := pure) hmoves
          (fun r y hv => evaluates_join _ (Or.inr hv)) fun _ _ h => ?_
        exact (Bool.and_eq_true_iff.mp h).2
  · cases htruth : t.value.truthiness with
    | none =>
      rw [htruth] at hp
      exact (Bool.and_eq_true_iff.mp (Bool.and_eq_true_iff.mp hp).1).1
    | some truthy =>
      rw [htruth] at hp
      cases truthy <;> exact (Bool.and_eq_true_iff.mp hp).1

/-! ## The walk -/

/-- Values of several expressions, each held by what was found. -/
abbrev AllHold (ts : List Tracked) (xs : List Primitive) : Prop :=
  List.Forall₂ (fun (t : Tracked) (x : Primitive) => t.value.Holds (.primitive x)) ts xs

theorem AllHold.getLast {ts : List Tracked} {xs : List Primitive} (h : AllHold ts xs) :
    ((ts.getLast?.map Tracked.value).getD Value.undefined).Holds
      (.primitive (xs.getLastD .undefined)) := by
  induction h with
  | nil => exact Value.holds_ofPrimitive _
  | @cons t x ts xs htx hrest ih =>
    cases hrest with
    | nil => exact htx
    | cons h hrest => exact ih

/-- A unary operator on an operand that was found. -/
theorem Evaluates.unary {arg : Track Tracked} {arg' : Run Primitive} {op : UnaryOp}
    {f : Tracked → Track Tracked} (h : Evaluates cx fs Δ arg arg') (hop : op ≠ .delete)
    (hmoves : ∀ t, Track.Moves cx .none (f t))
    (hf : ∀ t x z, t.value.Holds (.primitive x) → Primitive.unary op x = some z →
      ∀ p, (f t cx p).1.value.Holds (.primitive z))
    (hpure : ∀ t p, (f t cx p).1.pure = true → t.pure = true) :
    Evaluates cx fs Δ (arg >>= f) (do return (Primitive.unary op (← arg')).getD .undefined) := by
  refine h.bind (h.moves.bind fun t p => (hmoves t p).mono (Bounds.none_within _))
    (fun t x hx => ?_) hpure
  obtain ⟨z, hz⟩ : ∃ z, Primitive.unary op x = some z := by
    cases op <;> first | exact ⟨_, rfl⟩ | exact absurd rfl hop
  rw [hz]
  exact Simulates.quiet (hmoves t) (hf t x z hx hz)

/-- A binary operator that evaluates both operands. -/
theorem Evaluates.binary {left right : Track Tracked} {left' right' : Run Primitive} {op : BinaryOp}
    (hop : ∀ x y, ∃ z, Primitive.binary op x y = some z) (hl : Evaluates cx fs Δ left left')
    (hr : Evaluates cx fs Δ right right') :
    Evaluates cx fs Δ (do
      let left ← left
      let right ← right
      return (← Track.binary op left.value right.value).after (left.pure && right.pure)) (do
      let left ← left'
      let right ← right'
      return (Primitive.binary op left right).getD .undefined) := by
  have hbinary (t u : Tracked) : Track.Moves cx .none (do
      return (← Track.binary op t.value u.value).after (t.pure && u.pure)) :=
    (Track.moves_binary _ _ _).bind fun _ => Track.Moves.pure _
  have hmoves (t : Tracked) : Track.Moves cx .evaluating (do
      let u ← right
      return (← Track.binary op t.value u.value).after (t.pure && u.pure)) :=
    hr.moves.bind fun u p => (hbinary t u p).mono (Bounds.none_within _)
  refine hl.bind (hl.moves.bind hmoves) (fun t x hx => ?_) fun t p h => ?_
  · refine hr.bind (hmoves t) (fun u y hy => ?_) fun u p h => ?_
    · obtain ⟨z, hz⟩ := hop x y
      rw [hz]
      exact Simulates.quiet (hbinary t u) fun p => Track.binary_holds hx hy hz cx p
    · exact (Bool.and_eq_true_iff.mp (Bool.and_eq_true_iff.mp h).1).2
  · exact (Bool.and_eq_true_iff.mp (Bool.and_eq_true_iff.mp h).1).1

mutual

/-- Whatever a plain expression evaluates to, the analysis of it covers. -/
theorem evaluates_onExpr {constants : List String} (hΔ : Δ.Valid cx.scopes fs)
    (hfs : fs ≠ ScopeTree.root) (hcx : cx.Knows constants) (e : Expr)
    (h : e.Bound cx.scopes constants Δ) : Evaluates cx fs Δ (Track.onExpr e) e.eval := by
  unfold Track.onExpr Expr.eval
  refine Evaluates.recorded ?_ e.id
  cases e with
  | ident i => exact evaluates_readIdent true hΔ hfs hcx h
  | string id s => exact Simulates.pure (Value.holds_ofPrimitive _)
  | bool id s => exact Simulates.pure (Value.holds_ofPrimitive _)
  | null id => exact Simulates.pure (Value.holds_ofPrimitive _)
  | number id s => exact Simulates.pure (Value.holds_ofPrimitive _)
  | unary id op arg =>
    rw [Expr.Bound] at h
    have harg := evaluates_onExpr hΔ hfs hcx arg h.2
    cases op with
    | typeOf =>
      have htype (t : Tracked) (x z : Primitive) (hx : t.value.Holds (.primitive x))
          (hz : Primitive.unary .typeOf x = some z) (p : Progress) :
          ((pure (Track.typeOfOutcome t) : Track Tracked) cx p).1.value.Holds (.primitive z) := by
        cases hz
        exact Track.typeOfOutcome_holds hx
      cases arg with
      | ident i =>
        have hread := (evaluates_readIdent false hΔ hfs hcx h.2).recorded i.id
        exact hread.unary h.1 (fun _ => Track.Moves.pure _) htype fun _ _ hp => hp
      | _ => exact harg.unary h.1 (fun _ => Track.Moves.pure _) htype fun _ _ hp => hp
    | void =>
      refine harg.unary h.1 (fun _ => Track.Moves.pure _) (fun t x z hx hz p => ?_) fun _ _ hp => hp
      cases hz
      exact Value.holds_ofPrimitive _
    | not =>
      refine harg.unary h.1 (fun _ => Track.Moves.pure _) (fun t x z hx hz p => ?_) fun _ _ hp => hp
      cases hz
      exact Track.notOutcome_holds hx
    | delete => exact absurd rfl h.1
    | _ =>
      exact harg.unary h.1 (fun t => Track.moves_numeric _ t)
        (fun t x z hx hz p => Track.numeric_holds hx hz cx p) fun t p => Track.pure_of_numeric cx p
  | update id op before arg =>
    cases arg with
    | ident i =>
      rw [Expr.Bound] at h
      exact evaluates_updateIdent hΔ hfs hcx h
    | _ => exact h.elim
  | binary id op left right =>
    rw [Expr.Bound] at h
    obtain ⟨hin, hinst, hleft, hright⟩ := h
    have hl := evaluates_onExpr hΔ hfs hcx left hleft
    have hr := evaluates_onExpr hΔ hfs hcx right hright
    cases op with
    | or => exact hl.logical true hr
    | and => exact hl.logical false hr
    | «in» => exact absurd rfl hin
    | instanceOf => exact absurd rfl hinst
    | _ => exact hl.binary (fun _ _ => ⟨_, rfl⟩) hr
  | assign id op left right =>
    cases left with
    | ident i =>
      rw [Expr.Bound] at h
      exact evaluates_assignToIdent hΔ hfs hcx h.1 (evaluates_onExpr hΔ hfs hcx right h.2)
    | _ => exact h.elim
  | cond id test yes no =>
    rw [Expr.Bound] at h
    exact (evaluates_onExpr hΔ hfs hcx test h.1).choose (evaluates_onExpr hΔ hfs hcx yes h.2.1)
      (evaluates_onExpr hΔ hfs hcx no h.2.2)
  | seq id exprs =>
    rw [Expr.Bound] at h
    exact (simulates_onExprs hΔ hfs hcx exprs h).map (fun _ _ hall => hall.getLast) fun _ hp => hp
  | _ => exact h.elim
termination_by structural e

theorem simulates_onExprs {constants : List String} (hΔ : Δ.Valid cx.scopes fs)
    (hfs : fs ≠ ScopeTree.root) (hcx : cx.Knows constants) :
    (es : List Expr) → AreBound cx.scopes constants Δ es →
    Simulates cx fs Δ (Track.onExprs es) (evalAll es) AllHold (fun ts => ts.all (·.pure) = true)
  | [], _ => by
    rw [Track.onExprs, evalAll]
    exact Simulates.pure .nil
  | e :: rest, h => by
    rw [AreBound] at h
    rw [Track.onExprs, evalAll]
    have he := evaluates_onExpr hΔ hfs hcx e h.1
    have hrest := simulates_onExprs hΔ hfs hcx rest h.2
    refine he.bind (he.moves.bind fun _ => hrest.moves.bind fun _ => Track.Moves.pure _)
      (fun t x hx => ?_) fun t p hp => ?_
    · exact hrest.map (fun ts xs hts => .cons hx hts) fun ts hp => (Bool.and_eq_true_iff.mp hp).2
    · exact (Bool.and_eq_true_iff.mp hp).1
termination_by structural es => es

end

/-- The analysis of an expression that may be missing covers whatever it evaluates to. -/
theorem simulates_onExpr? {constants : List String} (hΔ : Δ.Valid cx.scopes fs)
    (hfs : fs ≠ ScopeTree.root) (hcx : cx.Knows constants) (e : Option Expr)
    (h : Bound? cx.scopes constants Δ e) :
    Simulates cx fs Δ (Track.onExpr? e) (eval? e)
      (Option.Rel fun t x => t.value.Holds (.primitive x)) (fun _ => False) := by
  cases e with
  | none => exact Simulates.pure .none
  | some e => exact (evaluates_onExpr hΔ hfs hcx e h).map (fun _ _ hx => .some hx) nofun

end

end EsOptimizer
