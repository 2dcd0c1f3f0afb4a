import EsOptimizer.Proofs.Simulation.FixedPoint
import EsOptimizer.Proofs.Simulation.Links

/-!
# Expressions that call functions

`Covers` relates a step of the analysis to a step of a machine, where functions are called. A called
function runs code that is analyzed elsewhere, so what happens on the way is measured against what
the analysis has found when it is finished (`Machine.Sound`): the facts recorded by then explain
every evaluation, and the facts that the analysis started from allow for every call and every value
that was returned.

Some variables of a body may be written from elsewhere, as far as the analysis knows. They are not
followed by its state; what is known of them is all that was ever stored.
-/

namespace EsOptimizer

/-! ## Machines and finished analyses -/

/-- The summary of a function holds a value that it returned. -/
def Facts.ReturnHolds (facts : Facts) (f : Func) (x : Primitive) : Prop :=
  ∃ s, facts.summaries[f.id]? = some s ∧ s.returns.Holds (.primitive x)

/-- All that happened so far is accounted for by the finished analysis `F` and by the facts that it
started from. -/
structure Machine.Sound (cx : Context) (F : Progress) (m : Machine) : Prop where
  trace : ∀ ev ∈ m.trace, Explains F.nodeFacts ev
  calls : ∀ c ∈ m.calls, cx.prev.ParamsHold c.1 c.2
  returns : ∀ r ∈ m.returns, cx.prev.ReturnHolds r.1 r.2

/-- The facts that an analysis started from account for what it stored and for the calls that it
observed. -/
structure Context.Expects (cx : Context) (F : Progress) (link : String → Option Func) : Prop where
  possible : ∀ key (x : Value), F.possible[key]? = some x → x.Below (cx.prev.possible.getD key .unknown)
  params : ∀ name f, link name = some f → ∀ values : List Value, F.calls[f.id]? = some values →
    ∀ i < f.params.length,
      (values.getD i .undefined).Below (((cx.prev.params[f.id]?).getD []).getD i .unknown)

/-- Calls of functions are accounted for, and leave the variables of the caller alone. -/
def Calling.Sound (cx : Context) (F : Progress) (link : String → Option Func) (call : Calling) :
    Prop :=
  ∀ name f, link name = some f → ∀ args m, cx.prev.ParamsHold f args → m.Sound cx F →
    (call name args m).2.Sound cx F ∧ ∀ x, (call name args m).1 = some x →
      (call name args m).2.env = m.env ∧ cx.prev.ReturnHolds f x

theorem Machine.Sound.ofRun {α : Type} {cx : Context} {F : Progress} {m : Machine} {step : Run α}
    (h : m.Sound cx F) (hstep : (step m.toWorld).2.trace = m.trace) :
    (Process.ofRun step m).2.Sound cx F where
  trace := by
    change ∀ ev ∈ (step m.toWorld).2.trace, _
    rw [hstep]
    exact h.trace
  calls := h.calls
  returns := h.returns

/-! ## Places that go together -/

/-- The variables of a layout that no other body writes. -/
def Layout.followed (scopes : ScopeTree) (Δ : Layout) : Layout :=
  Δ.filter fun e => !(scopes.var e.2).hasForeignWrites

theorem Layout.mem_followed {scopes : ScopeTree} {Δ : Layout} {v : VarId} :
    v ∈ (Δ.followed scopes).vars ↔ v ∈ Δ.vars ∧ (scopes.var v).hasForeignWrites = false := by
  simp only [vars, followed, List.mem_map, List.mem_filter, Bool.not_eq_true']
  constructor
  · rintro ⟨e, ⟨he, hw⟩, rfl⟩
    exact ⟨⟨e, he, rfl⟩, hw⟩
  · rintro ⟨⟨e, he, rfl⟩, hw⟩
    exact ⟨e, ⟨he, hw⟩, rfl⟩

/-- Code that evaluates first-order expressions records facts and writes the variables of a layout,
and control goes on. -/
def Bounds.computing (Δ : Layout) : Bounds := ⟨fun _ => True, (· ∈ Δ.vars), False⟩

/-- Facts are recorded, no variable is written, and control goes on. -/
def Bounds.recordingOnly : Bounds := ⟨fun _ => True, fun _ => False, False⟩

/-- The place of an analysis and a machine go together: what is known of each variable in force holds
its value, and what is known of the name of a function is that function. -/
structure Accords (cx : Context) (fs : ScopeId) (Δ : Layout) (p : Progress) (ρ : Valuation)
    (m : Machine) : Prop where
  follows : Follows cx fs (Δ.followed cx.scopes) p ρ
  stored : ∀ v ∈ Δ.vars, (cx.scopes.var v).hasForeignWrites = true →
    (cx.prev.possible.getD (cx.scopes.var v).key .unknown).Holds (.primitive (ρ v))
  functions : ∀ x ∈ (cx.scopes.scope ScopeTree.root).hoisted,
    (Track.readVar x.1 cx p).1.singles? = some [.reference (.function x.2)]
  env : m.env = Δ.env ρ

section

variable {α β γ δ : Type} {cx : Context} {F : Progress} {fns : List NodeId} {fs : ScopeId}
  {Δ : Layout} {b : Bounds} {p q : Progress} {ρ ρ' : Valuation} {m m' : Machine}

theorem readVar_congr {v : VarId} (hscope : q.frame.scope = p.frame.scope)
    (hcurrent : q.state.current cx.scopes v = p.state.current cx.scopes v) :
    (Track.readVar v cx q).1 = (Track.readVar v cx p).1 := by
  rw [readVar_apply, readVar_apply, hscope, hcurrent]

theorem Advances.readVar {v : VarId} (h : Advances cx.scopes b p q) (hv : ¬b.vars v) :
    (Track.readVar v cx q).1 = (Track.readVar v cx p).1 :=
  readVar_congr h.scope (State.current_congr cx.scopes (h.lookup hv))

namespace Accords

/-- Only what is known of variables matters. -/
theorem place (h : Accords cx fs Δ p ρ m) (hscope : q.frame.scope = p.frame.scope)
    (hcurrent : ∀ v, q.state.current cx.scopes v = p.state.current cx.scopes v) :
    Accords cx fs Δ q ρ m where
  follows := ⟨hscope.trans h.follows.scope, fun v hv => by
    rw [hcurrent v]
    exact h.follows.holds v hv⟩
  stored := h.stored
  functions := fun x hx => by
    rw [readVar_congr hscope (hcurrent x.1)]
    exact h.functions x hx
  env := h.env

/-- Steps that write no variables keep the relation. -/
theorem advance (h : Accords cx fs Δ p ρ m) (hpq : Advances cx.scopes b p q)
    (hvars : ∀ v, ¬b.vars v) : Accords cx fs Δ q ρ m :=
  h.place hpq.scope fun v => State.current_congr cx.scopes (hpq.lookup (hvars v))

/-- Code that writes no names of functions, and after which the variables are known. -/
theorem step (h : Accords cx fs Δ p ρ m) (hpq : Advances cx.scopes b p q)
    (hfns : ∀ x ∈ (cx.scopes.scope ScopeTree.root).hoisted, ¬b.vars x.1)
    (hfollows : Follows cx fs (Δ.followed cx.scopes) q ρ')
    (hstored : ∀ v ∈ Δ.vars, (cx.scopes.var v).hasForeignWrites = true →
      (cx.prev.possible.getD (cx.scopes.var v).key .unknown).Holds (.primitive (ρ' v)))
    (henv : m'.env = Δ.env ρ') : Accords cx fs Δ q ρ' m' where
  follows := hfollows
  stored := hstored
  functions := fun x hx => by
    rw [hpq.readVar (hfns x hx)]
    exact h.functions x hx
  env := henv

/-- What reading a variable finds holds its value. -/
theorem reads (h : Accords cx fs Δ p ρ m) (hΔ : Δ.Local cx.scopes fs) {v : VarId}
    (hv : v ∈ Δ.vars) : (Track.readVar v cx p).1.Holds (.primitive (ρ v)) := by
  have hscope : ((cx.scopes.var v).fnScope != p.frame.scope) = false := by
    rw [hΔ.fnScope v hv, h.follows.scope, bne_self_eq_false]
  rw [readVar_apply, hscope, Bool.or_false]
  cases hwrites : (cx.scopes.var v).hasForeignWrites with
  | true =>
    split
    · exact Value.holds_unknown _
    · exact h.stored v hv hwrites
  | false =>
    split
    · exact Value.holds_unknown _
    · exact h.follows.holds v (Layout.mem_followed.mpr ⟨hv, hwrites⟩)

end Accords

/-! ## Steps that go together -/

/-- A step `a` of the analysis and a step `c` of a machine go together. Their results are related by
`R`, and results that satisfy `P` are found without changing a variable. -/
structure Covers (cx : Context) (F : Progress) (fns : List NodeId) (fs : ScopeId) (Δ : Layout)
    (a : Track α) (c : Process β) (R : α → β → Prop) (P : α → Prop) : Prop where
  moves : Track.Moves cx (.computing Δ) a
  runs : ∀ {p ρ m}, Accords cx fs Δ p ρ m → m.Sound cx F → Gathers fns (a cx p).2 F →
    (c m).2.Sound cx F ∧ ∀ y, (c m).1 = some y → ∃ ρ', Accords cx fs Δ (a cx p).2 ρ' (c m).2 ∧
      R (a cx p).1 y ∧ (P (a cx p).1 → (c m).2.env = m.env)

/-- An evaluation: the value found holds that of the machine, and a pure one changes nothing. -/
abbrev Computes (cx : Context) (F : Progress) (fns : List NodeId) (fs : ScopeId) (Δ : Layout)
    (a : Track Tracked) (c : Process Primitive) : Prop :=
  Covers cx F fns fs Δ a c (fun t x => t.value.Holds (.primitive x)) (fun t => t.pure = true)

/-- What is found out later is found out in the end. -/
theorem Gathers.before (h : Gathers fns q F) (hpq : Advances cx.scopes b p q) : Gathers fns p F :=
  hpq.gathers.trans h

variable {a : Track α} {c : Process β} {R : α → β → Prop} {P : α → Prop}

namespace Covers

theorem pure {x : α} {y : β} (h : R x y) :
    Covers cx F fns fs Δ (Pure.pure x) (Pure.pure y) R P where
  moves := Track.Moves.pure x
  runs := fun {_ ρ _} hp hm _ => ⟨hm, fun _ hy => ⟨ρ, hp, Option.some.inj hy ▸ h, fun _ => rfl⟩⟩

theorem bind {f : α → Track γ} {g : β → Process δ} {S : γ → δ → Prop} {Q : γ → Prop}
    (ha : Covers cx F fns fs Δ a c R P) (hmoves : ∀ x, Track.Moves cx (.computing Δ) (f x))
    (hf : ∀ x y, R x y → Covers cx F fns fs Δ (f x) (g y) S Q)
    (hpure : ∀ x p, Q (f x cx p).1 → P x) : Covers cx F fns fs Δ (a >>= f) (c >>= g) S Q where
  moves := ha.moves.bind hmoves
  runs := by
    intro p ρ m hp hm hF
    obtain ⟨hm', hgo⟩ := ha.runs hp hm (hF.before (hmoves _ _))
    rw [Process.bind_apply]
    cases hy : (c m).1 with
    | none => exact ⟨hm', nofun⟩
    | some y =>
      obtain ⟨ρ', hq, hR, hP⟩ := hgo y hy
      obtain ⟨hm'', hgo'⟩ := (hf _ _ hR).runs hq hm' hF
      refine ⟨hm'', fun z hz => ?_⟩
      obtain ⟨ρ'', hr, hS, hQ⟩ := hgo' z hz
      exact ⟨ρ'', hr, hS, fun h => (hQ h).trans (hP (hpure _ _ h))⟩

theorem map {f : α → γ} {g : β → δ} {S : γ → δ → Prop} {Q : γ → Prop}
    (ha : Covers cx F fns fs Δ a c R P) (hS : ∀ x y, R x y → S (f x) (g y))
    (hpure : ∀ x, Q (f x) → P x) :
    Covers cx F fns fs Δ (do return f (← a)) (do return g (← c)) S Q :=
  ha.bind (fun _ => Track.Moves.pure _) (fun x y h => pure (hS x y h)) fun x _ h => hpure x h

/-- The analysis goes on when the machine is done. -/
theorem finish {f : α → Track γ} {S : γ → β → Prop} {Q : γ → Prop}
    (ha : Covers cx F fns fs Δ a c R P) (hmoves : ∀ x, Track.Moves cx (.computing Δ) (f x))
    (hf : ∀ x y, R x y → Covers cx F fns fs Δ (f x) (Pure.pure y) S Q)
    (hpure : ∀ x p, Q (f x cx p).1 → P x) : Covers cx F fns fs Δ (a >>= f) c S Q := by
  have h := ha.bind hmoves hf hpure
  rwa [bind_pure] at h

/-- The analysis computes something from its result. -/
theorem view {f : α → γ} {S : γ → β → Prop} {Q : γ → Prop} (ha : Covers cx F fns fs Δ a c R P)
    (hS : ∀ x y, R x y → S (f x) y) (hpure : ∀ x, Q (f x) → P x) :
    Covers cx F fns fs Δ (do return f (← a)) c S Q :=
  ha.finish (fun _ => Track.Moves.pure _) (fun x y h => pure (hS x y h)) fun x _ h => hpure x h

/-- A step of the analysis that does nothing to variables, while the machine computes a value. -/
theorem quiet {a : Track α} {y : β} (hmoves : Track.Moves cx .none a)
    (hR : ∀ p, R (a cx p).1 y) : Covers cx F fns fs Δ a (Pure.pure y) R P where
  moves := fun p => (hmoves p).mono (Bounds.none_within _)
  runs := fun {p ρ _} hp hm _ => ⟨hm, fun _ hy =>
    ⟨ρ, hp.advance (hmoves p) fun _ h => h, Option.some.inj hy ▸ hR p, fun _ => rfl⟩⟩

/-- The analysis evaluates something that the machine does not, and writes no variable. -/
theorem after {e : Track γ} {f : γ → Track α} {T : γ → Prop}
    (he : Track.Moves cx .recordingOnly e)
    (hresult : ∀ {p ρ m}, Accords cx fs Δ p ρ m → T (e cx p).1)
    (hmoves : ∀ x, Track.Moves cx (.computing Δ) (f x))
    (hf : ∀ x, T x → Covers cx F fns fs Δ (f x) c R P) :
    Covers cx F fns fs Δ (e >>= f) c R P where
  moves := Track.Moves.bind (fun p => (he p).mono ⟨fun _ _ => trivial, fun _ => False.elim, id⟩)
    hmoves
  runs := fun {p _ _} hp hm hF =>
    (hf _ (hresult hp)).runs (hp.advance (he p) fun _ h => h) hm hF

theorem alive (ha : Covers cx F fns fs Δ a c R P) {p : Progress} (hp : p.state.isDead = false) :
    (a cx p).2.state.isDead = false :=
  ((ha.moves p).alive id).trans hp

end Covers

/-! ## Recording -/

theorem Computes.recorded {a : Track Tracked} {c : Process Primitive}
    (h : Computes cx F fns fs Δ a c) (id : NodeId) :
    Computes cx F fns fs Δ (Track.recorded id a) (Process.evaluated id c) where
  moves := Track.moves_recorded trivial h.moves
  runs := by
    intro p ρ m hp hm hF
    set t := (a cx p).1
    set q := (a cx p).2
    have hnotify : Advances cx.scopes .none (Track.record id t cx q).2
        (Track.recorded id a cx p).2 := Track.moves_notify .expr id _
    have hrecord : Advances cx.scopes .recordingOnly q (Track.recorded id a cx p).2 :=
      (Track.moves_record trivial t q).trans (hnotify.mono (Bounds.none_within _))
    obtain ⟨hm', hgo⟩ := h.runs hp hm (hF.before hrecord)
    rw [Process.evaluated_apply]
    cases hx : (c m).1 with
    | none => exact ⟨hm', nofun⟩
    | some x =>
      obtain ⟨ρ', hq, hvalue, hpure⟩ := hgo x hx
      obtain ⟨f, hf, hbelow, hfpure⟩ := record_facts cx id t q
      have hev : Explains F.nodeFacts ⟨id, m.env, x, (c m).2.env⟩ := by
        refine Explains.grow ⟨f, hf, hbelow _ hvalue, fun h => hpure (hfpure h)⟩ ?_
        exact (hF.before hnotify).facts
      refine ⟨⟨List.forall_mem_cons.mpr ⟨hev, hm'.trace⟩, hm'.calls, hm'.returns⟩, ?_⟩
      rintro _ ⟨⟩
      have hr := hq.advance hrecord fun _ h => h
      exact ⟨ρ', ⟨hr.follows, hr.stored, hr.functions, hr.env⟩, hvalue, hpure⟩

/-! ## Names -/

/-- What there is around code that is followed: its variables, the functions that it calls, and the
facts that the analysis started from. -/
structure Setting (cx : Context) (F : Progress) (link : String → Option Func) (call : Calling)
    (fs : ScopeId) (Δ : Layout) : Prop where
  vars : Δ.Local cx.scopes fs
  functions : cx.scopes.HoistsFunctions
  expects : cx.Expects F link
  calls : call.Sound cx F link

variable {link : String → Option Func} {call : Calling}

theorem computes_readIdent {i : Ident} {v : VarId} (mayThrow : Bool) (hΔ : Δ.Local cx.scopes fs)
    (hlookup : Δ.lookup i.name = some v) (hvar : cx.scopes.varOf i.id = some v) :
    Computes cx F fns fs Δ (Track.readIdent i mayThrow) (Process.ofRun (Run.readName i.name)) where
  moves := Track.moves_readIdent i mayThrow
  runs := by
    intro p ρ m hp hm _
    have hv := Layout.mem_vars_of_lookup hlookup
    rw [readIdent_eq mayThrow hvar (Or.inr (hΔ.exists_always hv))]
    refine ⟨hm, ?_⟩
    rintro _ ⟨⟩
    refine ⟨ρ, hp, ?_, fun _ => rfl⟩
    change (Track.readVar v cx p).1.Holds (.primitive (m.env.read i.name))
    rw [hp.env, Layout.read_env ρ hlookup]
    exact hp.reads hΔ hv

theorem ScopeTree.Assigns.exists_varOf {scopes : ScopeTree} {i : Ident} (h : scopes.Assigns Δ i) :
    ∃ v, Δ.lookup i.name = some v ∧ scopes.varOf i.id = some v := by
  obtain ⟨v, hlookup, hwritten⟩ := h
  exact ⟨v, hlookup, varOf_of_writtenBy? hwritten⟩

theorem covers_writeVar {v : VarId} {name : String} {value : Value} {x : Primitive}
    (hs : Setting cx F link call fs Δ) (hlookup : Δ.lookup name = some v)
    (h : value.Holds (.primitive x)) :
    Covers cx F fns fs Δ (Track.writeVar v value) (Process.ofRun (Run.assignName name x))
      (fun _ _ => True) (fun _ => False) where
  moves := Track.moves_writeVar (Layout.mem_vars_of_lookup hlookup) value
  runs := by
    intro p ρ m hp hm hF
    have hv := Layout.mem_vars_of_lookup hlookup
    have hmoves : Advances cx.scopes (.computing Δ) p (Track.writeVar v value cx p).2 :=
      Track.moves_writeVar hv value p
    refine ⟨⟨hm.trace, hm.calls, hm.returns⟩, fun _ _ => ⟨ρ.set v x, ?_, trivial, nofun⟩⟩
    refine hp.step hmoves (fun y hy => hs.vars.not_hoisted hs.functions hy) ?_ (fun u hu hwrites => ?_) ?_
    · cases hwrites : (cx.scopes.var v).hasForeignWrites with
      | false => exact hp.follows.writeVar ⟨hs.vars.fnScope v hv, hwrites⟩ h
      | true =>
        have hout : v ∉ (Δ.followed cx.scopes).vars := fun hin => by
          rw [(Layout.mem_followed.mp hin).2] at hwrites
          cases hwrites
        have hq := hp.follows.writeOther value hout
        refine ⟨hq.scope, fun u hu => ?_⟩
        rw [Valuation.set, if_neg (by rintro rfl; exact hout hu)]
        exact hq.holds u hu
    · by_cases huv : u = v
      · subst huv
        obtain ⟨y, hy, hbelow⟩ := (stores_writeVar u value p).grow hF.possible
        rw [Valuation.set, if_pos rfl]
        exact hs.expects.possible _ y hy _ (hbelow _ h)
      · rw [Valuation.set, if_neg huv]
        exact hp.stored u hu hwrites
    · change m.env.assign name x = _
      rw [hp.env, Layout.assign_env hs.vars.nodup ρ x hlookup]

/-- Steps that are the same in this context go together with the same steps of a machine. -/
theorem Covers.congr {a' : Track α} (h : Covers cx F fns fs Δ a c R P) (ha : a' cx = a cx) :
    Covers cx F fns fs Δ a' c R P where
  moves := fun p => by rw [ha]; exact h.moves p
  runs := fun hp hm hF => by
    rw [ha] at hF ⊢
    exact h.runs hp hm hF

theorem covers_initIdent {i : Ident} {value : Value} {x : Primitive}
    (hs : Setting cx F link call fs Δ) (hi : cx.scopes.Assigns Δ i) (h : value.Holds (.primitive x)) :
    Covers cx F fns fs Δ (Track.initIdent i value) (Process.ofRun (Run.assignName i.name x))
      (fun _ _ => True) (fun _ => False) := by
  obtain ⟨v, hlookup, hvar⟩ := hi.exists_varOf
  exact (covers_writeVar hs hlookup h).congr (initIdent_eq value hvar)

theorem covers_assignIdent {i : Ident} {value : Value} {x : Primitive}
    (hs : Setting cx F link call fs Δ) (hi : cx.scopes.Assigns Δ i) (h : value.Holds (.primitive x)) :
    Covers cx F fns fs Δ (Track.assignIdent i value) (Process.ofRun (Run.assignName i.name x))
      (fun _ _ => True) (fun _ => False) := by
  obtain ⟨v, hlookup, hvar⟩ := hi.exists_varOf
  exact (covers_writeVar hs hlookup h).congr
    (assignIdent_eq value hvar (hs.vars.not_const (Layout.mem_vars_of_lookup hlookup)))

theorem ScopeTree.Assigns.written {scopes : ScopeTree} {i : Ident} (h : scopes.Assigns Δ i) :
    ∀ v, scopes.varOf i.id = some v → v ∈ Δ.vars := by
  obtain ⟨u, hlookup, hvar⟩ := h.exists_varOf
  intro v hv
  cases hvar.symm.trans hv
  exact Layout.mem_vars_of_lookup hlookup

/-- The value to assign holds that of the machine. -/
theorem covers_assigned {op : AssignOp} {i : Ident} {right : Track Tracked}
    {right' : Process Primitive} (hs : Setting cx F link call fs Δ) (hi : cx.scopes.Assigns Δ i)
    (h : Computes cx F fns fs Δ right right') :
    Covers cx F fns fs Δ (Track.assigned op (Track.readIdent i true) right)
      (Process.assigned op i.name right') (fun v x => v.Holds (.primitive x)) (fun _ => False) := by
  obtain ⟨v, hlookup, hvar⟩ := hi.exists_varOf
  have hread : Computes cx F fns fs Δ (Track.readIdent i true)
      (Process.ofRun (Run.readName i.name)) := computes_readIdent true hs.vars hlookup hvar
  have hbinary (o : BinaryOp) (u v : Value) : Track.Moves cx .none (do
      return (← Track.binary o u v).value) :=
    (Track.moves_binary o u v).bind fun _ => Track.Moves.pure _
  unfold Track.assigned Process.assigned
  cases ho : op.binary? with
  | none => exact h.view (fun _ _ hvalue => hvalue) fun _ hfalse => hfalse.elim
  | some o =>
    have hmoves (u t : Tracked) : Track.Moves cx (.computing Δ) (do
        return (← Track.binary o u.value t.value).value) :=
      fun p => (hbinary o _ _ p).mono (Bounds.none_within _)
    refine hread.bind (fun old => h.moves.bind (hmoves old)) (fun old x hx => ?_)
      fun _ _ hfalse => hfalse.elim
    refine h.bind (hmoves old) (fun t y hy => ?_) fun _ _ hfalse => hfalse.elim
    obtain ⟨z, hz⟩ := binary_isSome_of_assign ho x y
    rw [hz]
    exact Covers.quiet (hbinary o _ _) fun p => Track.binary_holds hx hy hz cx p

theorem computes_assignToIdent {op : AssignOp} {i : Ident} {right : Track Tracked}
    {right' : Process Primitive} (hs : Setting cx F link call fs Δ) (hi : cx.scopes.Assigns Δ i)
    (h : Computes cx F fns fs Δ right right') :
    Computes cx F fns fs Δ (Track.assignToIdent op i right) (do
      let value ← Process.assigned op i.name right'
      Process.ofRun (Run.assignName i.name value)
      return value) := by
  refine (covers_assigned hs hi h).bind (fun value => ?_) (fun value x hx => ?_)
    fun _ _ h => Bool.false_ne_true h
  · exact (Track.moves_assignIdent hi.written value).bind fun _ => Track.Moves.pure _
  · exact (covers_assignIdent hs hi hx).bind (fun _ => Track.Moves.pure _)
      (fun _ _ _ => Covers.pure hx) fun _ _ h => Bool.false_ne_true h

/-- An update reads, computes both numbers, and writes. -/
theorem Process.ofRun_updateName (op : UpdateOp) (before : Bool) (name : String) :
    Process.ofRun (Run.updateName op before name) = (do
      let x ← Process.ofRun (Run.readName name)
      let n ← pure (x.toNumber, x.toNumber.add (Track.updateStep op))
      Process.ofRun (Run.assignName name (.number n.2))
      return Primitive.number (if before then n.2 else n.1)) := rfl

theorem computes_updateIdent {op : UpdateOp} {before : Bool} {i : Ident}
    (hs : Setting cx F link call fs Δ) (hi : cx.scopes.Assigns Δ i) :
    Computes cx F fns fs Δ (Track.updateIdent op before i)
      (Process.ofRun (Run.updateName op before i.name)) := by
  obtain ⟨v, hlookup, hvar⟩ := hi.exists_varOf
  have hassign (values : Value × Value) : Track.Moves cx (.computing Δ) (do
      Track.assignIdent i values.2
      return Track.updateOutcome before values) :=
    (Track.moves_assignIdent hi.written _).bind fun _ => Track.Moves.pure _
  rw [Process.ofRun_updateName]
  refine (computes_readIdent true hs.vars hlookup hvar).bind
    (fun old => (Track.moves_updated op _).bind hassign) (fun old x hx => ?_)
    fun _ _ h => absurd h Bool.false_ne_true
  have hupdated : Covers cx F fns fs Δ (Track.updated op old.value)
      (pure (x.toNumber, x.toNumber.add (Track.updateStep op)))
      (fun v n => v.1.Holds (.primitive (.number n.1)) ∧ v.2.Holds (.primitive (.number n.2)))
      (fun _ => False) :=
    Covers.quiet (Track.moves_updated op _) fun p => Track.updated_holds hx cx p
  refine hupdated.bind hassign (fun v n hn => ?_) fun _ _ h => Bool.false_ne_true h
  refine (covers_assignIdent hs hi hn.2).bind (fun _ => Track.Moves.pure _)
    (fun _ _ _ => Covers.pure ?_) fun _ _ h => Bool.false_ne_true h
  unfold Track.updateOutcome
  cases before
  · exact hn.1
  · exact hn.2

/-! ## Choices -/

theorem Setting.apart (hs : Setting cx F link call fs Δ) :
    ∀ x ∈ (cx.scopes.scope ScopeTree.root).hoisted, x.1 ∉ Δ.vars :=
  fun _ hx => hs.vars.not_hoisted hs.functions hx

theorem Accords.child (h : Accords cx fs Δ p ρ m) : Accords cx fs Δ p.child ρ m :=
  h.place rfl fun v => State.current_child p.state cx.scopes v

theorem Accords.between (h : Accords cx fs Δ p ρ m) (ha : Track.Moves cx b a) :
    Accords cx fs Δ (Track.between cx a p) ρ m :=
  h.place (ha p.child).scope fun _ => rfl

namespace Covers

variable {a' : Track γ} {c' : Process δ} {S : γ → δ → Prop} {Q : γ → Prop}

/-- The machine goes through code that the analysis took for code that may run. -/
theorem tried (hs : Setting cx F link call fs Δ) (ha : Covers cx F fns fs Δ a c R P) :
    Covers cx F fns fs Δ (Track.tried a) c R P where
  moves := Track.moves_tried ha.moves
  runs := by
    intro p ρ m hp hm hF
    obtain ⟨hm', hgo⟩ := ha.runs hp.child hm ⟨hF.facts, hF.observed, hF.possible, hF.summaries⟩
    refine ⟨hm', fun y hy => ?_⟩
    obtain ⟨ρ', hq, hR, hP⟩ := hgo y hy
    exact ⟨ρ', hp.step (Track.moves_tried ha.moves p) hs.apart
      (Track.follows_tried ha.moves hq.follows (ha.alive rfl)) hq.stored hq.env, hR, hP⟩

/-- The machine skips such code. -/
theorem skipped (hs : Setting cx F link call fs Δ) (ha : Track.Moves cx (.computing Δ) a) (y : β) :
    Covers cx F fns fs Δ (Track.tried a) (Pure.pure y) (fun _ z => z = y) (fun _ => True) where
  moves := Track.moves_tried ha
  runs := by
    intro p ρ m hp hm _
    refine ⟨hm, ?_⟩
    rintro _ ⟨⟩
    exact ⟨ρ, hp.step (Track.moves_tried ha p) hs.apart
      (Track.follows_tried_of_skip ha hp.follows) hp.stored hp.env, rfl, fun _ => rfl⟩

/-- The machine goes through the first of two pieces. -/
theorem left (hs : Setting cx F link call fs Δ) (ha : Covers cx F fns fs Δ a c R P)
    (hd : Track.Moves cx (.computing Δ) a') :
    Covers cx F fns fs Δ (Track.either a a') c (fun r y => R r.1 y) (fun r => P r.1) where
  moves := Track.moves_either ha.moves hd
  runs := by
    intro p ρ m hp hm hF
    have hother : Gathers fns (a' cx (Track.between cx a p).child).2 F :=
      ⟨hF.facts, hF.observed, hF.possible, hF.summaries⟩
    have hF' := hother.before (hd (Track.between cx a p).child)
    obtain ⟨hm', hgo⟩ := ha.runs hp.child hm ⟨hF'.facts, hF'.observed, hF'.possible, hF'.summaries⟩
    refine ⟨hm', fun y hy => ?_⟩
    obtain ⟨ρ', hq, hR, hP⟩ := hgo y hy
    exact ⟨ρ', hp.step (Track.moves_either ha.moves hd p) hs.apart
      (Track.follows_either_left ha.moves hd hq.follows (ha.alive rfl)) hq.stored hq.env, hR, hP⟩

/-- The machine goes through the second of two pieces. -/
theorem right (hs : Setting cx F link call fs Δ) (ha : Track.Moves cx (.computing Δ) a)
    (hd : Covers cx F fns fs Δ a' c' S Q) :
    Covers cx F fns fs Δ (Track.either a a') c' (fun r y => S r.2 y) (fun r => Q r.2) where
  moves := Track.moves_either ha hd.moves
  runs := by
    intro p ρ m hp hm hF
    obtain ⟨hm', hgo⟩ := hd.runs (hp.between ha).child hm ⟨hF.facts, hF.observed, hF.possible, hF.summaries⟩
    refine ⟨hm', fun y hy => ?_⟩
    obtain ⟨ρ', hq, hS, hQ⟩ := hgo y hy
    exact ⟨ρ', hp.step (Track.moves_either ha hd.moves p) hs.apart
      (Track.follows_either_right ha hd.moves hq.follows (hd.alive rfl)) hq.stored hq.env, hS, hQ⟩

end Covers

end

end EsOptimizer
