import EsOptimizer.Proofs.Simulation.Stored

/-!
# First-order programs

A run of the analysis that finds the facts which it was given is right about first-order programs:
whatever happens in a run of the program, calls of any depth included, is accounted for
(`run_explained`). The proof is by induction on how deep calls nest. That facts stay the same ties the
bodies together: the arguments of a call are among those that the body was analyzed for, and what the
body returns is in the summary that the caller was analyzed with.
-/

namespace EsOptimizer

/-! ## Facts that stay the same -/

/-- The facts that a run over a first-order program started from account for its results. -/
structure Context.IsFixed (cx : Context) (p : Program) (Δ Φ : Layout) : Prop where
  scopes : cx.scopes.HasFirstOrder p Δ Φ
  trusting : cx.options.noGlobalPropertyOverwrites = true
  expects : cx.Expects (cx.result p) p.function?
  functions : ∀ x ∈ (cx.scopes.scope ScopeTree.root).hoisted,
    cx.prev.possible.getD (cx.scopes.var x.1).key .unknown = .ofReference (.function x.2)
  summaries : ∀ (f : Func) s, (cx.result p).summaries[f.id]? = some s →
    ∀ x, s.returns.Holds (.primitive x) → cx.prev.ReturnHolds f x

section

variable {p : Program} {Δ Φ : Layout} {options : Options} {prev : Facts} {watch : Bool}

/-- What the parameters of a function were given is known of them. -/
theorem params_of_fixed (h : (ScopeTree.ofProgram p).HasFirstOrder p Δ Φ)
    (hfixed : ((analyze p options prev watch).facts == prev) = true) {i : Ident} {f : Func}
    (hf : (i, f) ∈ p.declarations) {values : List Value}
    (hcalls : (Context.result { options, scopes := .ofProgram p, prev, watch } p).calls[f.id]? =
      some values) {k : Nat} (hk : k < f.params.length) :
    (values.getD k .undefined).Below (((prev.params[f.id]?).getD []).getD k .unknown) := by
  obtain ⟨info, Ψ, hbody⟩ := h.bodies i f hf
  rw [analyze_eq] at hfixed
  cases hparams : prev.params[f.id]? with
  | none => exact fun x _ => Value.holds_unknown x
  | some known =>
    obtain ⟨published, hpublished, hsame⟩ :=
      getElem?_of_beq_right (Context.parts_of_fixed hfixed).1 hparams
    rw [publishedParams, Std.TreeMap.getElem?_filterMap', hcalls, Option.bind_some,
      hbody.function, Option.bind_some] at hpublished
    split at hpublished
    · obtain rfl := Option.some.inj hpublished
      obtain ⟨hlength, hget⟩ := List.forall₂_iff_get.mp (forall₂_of_beq hsame)
      rw [List.length_map, List.length_range, ← hbody.params.length_eq] at hlength
      have hk' : k < known.length := hlength ▸ hk
      have hkth := hget k (by simpa [← hbody.params.length_eq] using hk) hk'
      rw [List.get_eq_getElem, List.getElem_map, List.getElem_range, List.get_eq_getElem] at hkth
      intro x hx
      rw [Option.getD_some, ← List.getElem_eq_getD (h := hk')]
      exact (Value.holds_iff_of_beq hkth x).mp hx
    · cases hpublished

theorem isFixed_of_analyze (h : (ScopeTree.ofProgram p).HasFirstOrder p Δ Φ)
    (htrusting : options.noGlobalPropertyOverwrites = true)
    (hfixed : ((analyze p options prev watch).facts == prev) = true) :
    Context.IsFixed { options, scopes := .ofProgram p, prev, watch } p Δ Φ where
  scopes := h
  trusting := htrusting
  expects := by
    refine ⟨fun key x hx => ?_, fun name f hf values hcalls k hk => ?_⟩
    · obtain ⟨y, hy, hsame⟩ := stored_of_fixed hfixed hx
      intro s hs
      rw [Std.TreeMap.getD_eq_getD_getElem?, hy]
      exact (Value.holds_iff_of_beq hsame s).mp hs
    · obtain ⟨i, hdeclared, -⟩ := Program.IsFirstOrder.exists_of_function? hf
      exact params_of_fixed h hfixed hdeclared hcalls hk
  functions := fun x hx => possible_of_fixed h hfixed hx
  summaries := fun f s hs x hx => by
    rw [analyze_eq] at hfixed
    obtain ⟨known, hknown, hsame⟩ := getElem?_of_beq (Context.parts_of_fixed hfixed).2.2 hs
    have hreturns : (s.returns == known.returns) = true := (Bool.and_eq_true_iff.mp hsame).1
    exact ⟨known, hknown, (Value.holds_iff_of_beq hreturns _).mp hx⟩

end

/-! ## Where bodies start -/

namespace Context.IsFixed

variable {cx : Context} {p : Program} {Δ Φ : Layout} {f : Func} {m : Machine} {args : List Primitive}

/-- What code that does not follow the variable of a function finds there. -/
theorem reads_function (h : cx.IsFixed p Δ Φ) {x : VarId × NodeId}
    (hx : x ∈ (cx.scopes.scope ScopeTree.root).hoisted) {q : Progress}
    (hforeign : ((cx.scopes.var x.1).hasForeignWrites ||
      (cx.scopes.var x.1).fnScope != q.frame.scope) = true) :
    (Track.readVar x.1 cx q).1 = .ofReference (.function x.2) := by
  rw [readVar_apply, h.trusting, hforeign, if_pos rfl, h.functions x hx]
  simp

/-- The body of a function starts with its parameters known. -/
theorem accords_function (h : cx.IsFixed p Δ Φ) {info : FunctionInfo} {Ψ : Layout}
    (hbody : cx.scopes.HasBody p f info Ψ) (hargs : cx.prev.ParamsHold f args)
    (henv : m.env = f.entry args) (q : Progress) :
    ∃ ρ, Accords cx info.scope Ψ (Track.startFunction f info cx q).2 ρ m := by
  obtain ⟨ρ, hfollows, hentry⟩ :=
    follows_startFunction hbody.toHasFunction hbody.fits hbody.flat hargs q
  refine ⟨ρ, ⟨hfollows.scope, fun v hv => hfollows.holds v (Layout.mem_followed.mp hv).1⟩,
    fun v hv hwrites => ?_, fun x hx => ?_, henv.trans hentry⟩
  · rw [(hbody.fits.valid.owns v hv).ownWrites] at hwrites
    cases hwrites
  · obtain ⟨d, -, hholds⟩ := h.scopes.exists_decl h.scopes.firstOrder h.scopes.ok hx
    rw [h.reads_function hx]
    · rfl
    · rw [hholds.fnScope, hfollows.scope, Bool.or_eq_true, bne_iff_ne]
      exact Or.inr (Ne.symm hbody.inner)

/-! ## Calls -/

/-- A call of a function is accounted for if those in its body are. -/
theorem sound_run (h : cx.IsFixed p Δ Φ) {call : Calling}
    (hcall : call.Sound cx (cx.result p) p.function?) {i : Ident} (hf : (i, f) ∈ p.declarations)
    (hargs : cx.prev.ParamsHold f args) (hm : m.Sound cx (cx.result p)) :
    (f.run call args m).2.Sound cx (cx.result p) ∧ ∀ x, (f.run call args m).1 = some x →
      (f.run call args m).2.env = m.env ∧ cx.prev.ReturnHolds f x := by
  obtain ⟨info, Ψ, hbody⟩ := h.scopes.bodies i f hf
  have hs : Setting cx (cx.result p) p.function? call info.scope Ψ :=
    ⟨hbody.isLocal, h.scopes.hoistsFunctions h.scopes.firstOrder h.scopes.ok, h.expects, hcall⟩
  have hmem : f ∈ p.functions := h.scopes.firstOrder.mem_functions_iff.mpr ⟨i, hf⟩
  obtain ⟨q, rest, hrest, hgathers⟩ := after_functions cx h.scopes.regular.functions_nodup hmem
    (Track.onProgram p cx { frame := { scope := ScopeTree.root } }).2
  rw [Track.onFunction_apply hbody.function, Track.sumUp_apply] at hgathers
  set start := (Track.startFunction f info cx q).2
  set m₁ : Machine := { m with env := f.entry args, calls := (f, args) :: m.calls }
  have hm₁ : m₁.Sound cx (cx.result p) :=
    ⟨hm.trace, List.forall_mem_cons.mpr ⟨hargs, hm.calls⟩, hm.returns⟩
  have hbodyGathers : Gathers (f.id :: rest) (Track.onStmts f.body.stmts cx start).2 (cx.result p) := by
    refine ⟨hgathers.facts, hgathers.observed, hgathers.possible, fun id hid => ?_⟩
    obtain ⟨hid, hrest⟩ := not_or.mp (List.mem_cons.not.mp hid)
    refine (hgathers.summaries id hrest).trans (Std.TreeMap.getElem?_insert.trans (if_neg fun hc => ?_))
    exact hid (Std.LawfulEqCmp.eq_of_compare hc).symm
  obtain ⟨ρ, haccords⟩ := h.accords_function hbody hargs (m := m₁) rfl q
  obtain ⟨hm', hgo⟩ := (performs_onStmts hs f.body.stmts hbody.linked).runs
    ((moves_startFunction cx f info q).alive id) haccords hm₁ hbodyGathers
  rw [Func.run_apply]
  change (runStmts call f.body.stmts m₁).2.Sound cx (cx.result p) at hm'
  change ∀ o, (runStmts call f.body.stmts m₁).1 = some o → _ at hgo
  generalize runStmts call f.body.stmts m₁ = r at hm' hgo ⊢
  obtain ⟨_ | o, m'⟩ := r
  · exact ⟨hm', nofun⟩
  · obtain ⟨hreturns, hnormal⟩ := hgo o rfl
    have hreturn : cx.prev.ReturnHolds f (o.getD .undefined) :=
      h.summaries f _ ((hgathers.summaries f.id hrest).trans Std.TreeMap.getElem?_insert_self) _
        (returned_holds hreturns fun ho => (hnormal ho).1)
    refine ⟨⟨hm'.trace, hm'.calls, List.forall_mem_cons.mpr ⟨hreturn, hm'.returns⟩⟩, ?_⟩
    rintro _ ⟨⟩
    exact ⟨rfl, hreturn⟩

theorem sound_call (h : cx.IsFixed p Δ Φ) (n : Nat) :
    (p.call n).Sound cx (cx.result p) p.function? := by
  induction n with
  | zero => exact fun _ _ _ _ m _ hm => ⟨hm, nofun⟩
  | succ n ih =>
    intro name f hf args m hargs hm
    obtain ⟨i, hdeclared, -⟩ := Program.IsFirstOrder.exists_of_function? hf
    rw [Program.call, hf]
    exact h.sound_run ih hdeclared hargs hm

/-! ## Where the program starts -/

/-- The variable of a function holds it once that is written. -/
theorem reads_written (h : cx.IsFixed p Δ Φ) {x : VarId × NodeId}
    (hx : x ∈ (cx.scopes.scope ScopeTree.root).hoisted) {q : Progress}
    (hscope : q.frame.scope = ScopeTree.root) :
    (Track.readVar x.1 cx (Track.writeVar x.1 (.ofReference (.function x.2)) cx q).2).1 =
      .ofReference (.function x.2) := by
  obtain ⟨d, -, hholds⟩ := h.scopes.exists_decl h.scopes.firstOrder h.scopes.ok hx
  cases hwrites : (cx.scopes.var x.1).hasForeignWrites with
  | true => exact h.reads_function hx (by rw [hwrites, Bool.true_or])
  | false =>
    obtain ⟨hstate, hframe⟩ := writeVar_own (.ofReference (.function x.2))
      (⟨hholds.fnScope, hwrites⟩ : cx.scopes.IsFollowed ScopeTree.root x.1) hscope
    rw [readVar_apply, h.trusting, hwrites, hframe, hholds.fnScope, hscope, hstate, State.current,
      State.setValue_lookup, if_pos rfl]
    simp

/-- Where the program starts, the names of functions mean the functions. -/
theorem reads_hoisted (h : cx.IsFixed p Δ Φ) {x : VarId × NodeId}
    (hx : x ∈ (cx.scopes.scope ScopeTree.root).hoisted) (q : Progress) :
    (Track.enterScope ScopeTree.root cx q).2.frame.scope = ScopeTree.root →
    (Track.readVar x.1 cx (Track.enterScope ScopeTree.root cx q).2).1 =
      .ofReference (.function x.2) := by
  set I : Progress → Prop := fun r => r.frame.scope = ScopeTree.root →
    (Track.readVar x.1 cx r).1 = .ofReference (.function x.2)
  have hwrite (r : Progress) : I (Track.writeVar x.1 (.ofReference (.function x.2)) cx r).2 := by
    intro hscope
    have hmoves : Advances cx.scopes .all r (Track.writeVar x.1 (.ofReference (.function x.2)) cx r).2 :=
      Track.moves_writeVar trivial _ r
    exact h.reads_written hx (hmoves.scope.symm.trans hscope)
  refine Track.enterScope_establishes (I := I) (fun y hy r hr => ?_) hx
    (fun r => hwrite (Track.allocateFunction x.2 cx r).2) q
  by_cases hyx : y.1 = x.1
  · obtain rfl := h.scopes.hoisted_eq hx hy hyx
    exact hwrite (Track.allocateFunction y.2 cx r).2
  · have hmoves : Advances cx.scopes ⟨fun _ => False, (· = y.1), False⟩ r
        (Track.writeVar y.1 (.ofReference (.function y.2)) cx (Track.allocateFunction y.2 cx r).2).2 :=
      (Track.moves_allocateFunction y.2 r).trans (Track.moves_writeVar rfl _ _)
    intro hscope
    exact (hmoves.readVar fun hxy => hyx hxy.symm).trans (hr (hmoves.scope.symm.trans hscope))

/-- The body of the program starts with its variables undefined. -/
theorem accords_program (h : cx.IsFixed p Δ Φ) (henv : m.env = p.entry) : ∃ ρ,
    Accords cx ScopeTree.root Δ (Track.enterScope ScopeTree.root cx
      (Progress.atBody { frame := { scope := ScopeTree.root } } ScopeTree.root)).2 ρ m := by
  have hlocal := h.scopes.local_root h.scopes.ok
  have hfns := h.scopes.hoistsFunctions h.scopes.firstOrder h.scopes.ok
  have hinitial {x : String × VarId} (hx : x ∈ Δ) :
      cx.scopes.initialValue x.2 = some .undefined := by
    obtain ⟨i, -, hmade⟩ := h.scopes.own x hx
    exact hmade.initial
  refine ⟨fun _ => .undefined, ?_, fun v hv _ => ?_, fun x hx => ?_, ?_⟩
  · refine follows_enterScope (fun x hx hmem => ?_) (fun v hv => ?_)
      (fun x _ value hvalue hmem => ?_) ⟨rfl, fun v hv => ?_⟩
    · exact hlocal.not_hoisted hfns hx (Layout.mem_followed.mp hmem).1
    · obtain ⟨hv, hwrites⟩ := Layout.mem_followed.mp hv
      exact ⟨hlocal.fnScope v hv, hwrites⟩
    · obtain ⟨y, hy, hyx⟩ := List.mem_map.mp (Layout.mem_followed.mp hmem).1
      rw [← hyx, hinitial hy] at hvalue
      obtain rfl := Option.some.inj hvalue
      exact Value.holds_ofPrimitive _
    · obtain ⟨y, hy, rfl⟩ := List.mem_map.mp (Layout.mem_followed.mp hv).1
      change ((cx.scopes.initialValue y.2).getD .unknown).Holds _
      rw [hinitial hy]
      exact Value.holds_ofPrimitive _
  · obtain ⟨x, hx, rfl⟩ := List.mem_map.mp hv
    obtain ⟨y, hy, hbelow⟩ := stores_onAll cx p (h.scopes.mem_vars (List.mem_append_left _ hx))
      (hinitial hx) { frame := { scope := ScopeTree.root } }
    exact h.expects.possible _ y hy _ (hbelow _ (Value.holds_ofPrimitive _))
  · have hmoves : Track.Moves cx .all (Track.enterScope ScopeTree.root) :=
      Track.moves_enterScope ⟨fun _ _ _ => trivial, fun _ _ => trivial⟩
    rw [h.reads_hoisted hx _ (hmoves _).scope]
    rfl
  · have hentry : p.entry = Env.blank (namesOf (p.varNames.map (·.name))) := by
      rw [Program.entry, ← List.foldl_map (f := Ident.name) (g := Env.declare)]
      exact Env.declareAll_blank [] _
    have hnames : Δ.map (·.1) = namesOf (p.varNames.map (·.name)) := h.scopes.names
    rw [henv, hentry, ← hnames, Env.blank, Layout.env, List.map_map]
    rfl

/-- All that happens in a run of the program is accounted for. -/
theorem sound_program (h : cx.IsFixed p Δ Φ) (n : Nat) : (p.run n).2.Sound cx (cx.result p) := by
  have hs : Setting cx (cx.result p) p.function? (p.call n) ScopeTree.root Δ :=
    ⟨h.scopes.local_root h.scopes.ok, h.scopes.hoistsFunctions h.scopes.firstOrder h.scopes.ok,
      h.expects, h.sound_call n⟩
  have henter : Track.Moves cx .binding (Track.enterScope ScopeTree.root) :=
    Track.moves_enterScope ⟨fun _ _ _ => trivial, fun _ _ => trivial⟩
  obtain ⟨ρ, haccords⟩ := h.accords_program (m := { env := p.entry }) rfl
  exact ((performs_onStmts hs p.body (h.scopes.linked_body h.scopes.firstOrder h.scopes.ok)).runs
    ((henter _).alive id) haccords ⟨nofun, nofun, nofun⟩ (gathers_functions p.functions _)).1

end Context.IsFixed

/-! ## The result -/

/-- At a fixed point the analysis is sound on first-order programs. In every run, with calls of any
depth: the facts of each expression that is evaluated hold its value, and an evaluation that they
call pure changes no variable; the facts about the parameters of each function hold the arguments of
its calls; and its summary holds what it returns. -/
theorem run_explained {p : Program} {prev : Facts} {watch : Bool} (hp : p.Regular)
    (hfirst : p.isFirstOrder = true)
    (hfixed : ((analyze p .trusting prev watch).facts == prev) = true) (n : Nat) :
    (∀ ev ∈ (p.run n).2.trace, Explains (analyze p .trusting prev watch).nodeFacts ev) ∧
      (∀ c ∈ (p.run n).2.calls, prev.ParamsHold c.1 c.2) ∧
        ∀ r ∈ (p.run n).2.returns, prev.ReturnHolds r.1 r.2 := by
  obtain ⟨Δ, Φ, hscopes⟩ := hasFirstOrder_ofProgram hp (Program.isFirstOrder_iff hfirst)
  have hsound := (isFixed_of_analyze hscopes rfl hfixed).sound_program n
  rw [analyze_eq]
  exact ⟨hsound.trace, hsound.calls, hsound.returns⟩

/-- `function relay(b) { return b ? echo() : null; }` -/
def relay : Func :=
  ⟨9, [⟨2, "b"⟩], ⟨8, [
    .return 7 (some (.cond 6 (.ident ⟨3, "b"⟩) (.call 5 (.ident ⟨4, "echo"⟩) []) (.null 1)))]⟩⟩

/-- `function echo(c) { return c; }` -/
def echo : Func := ⟨16, [⟨12, "c"⟩], ⟨15, [.return 14 (some (.ident ⟨13, "c"⟩))]⟩⟩

/-- The declarations of `relay` and `echo`, and `relay(true);`. -/
def relayProgram : Program := ⟨23, [.function 11 ⟨10, "relay"⟩ relay,
  .function 18 ⟨17, "echo"⟩ echo, .expr 22 (.call 21 (.ident ⟨19, "relay"⟩) [.bool 20 true])]⟩

/-- The facts that runs of the analysis settle on. -/
def relayFacts : Facts :=
  ((stabilize relayProgram .trusting 8 {}).1.getLast?.map (·.facts)).getD {}

theorem relay_explained :
    (∀ ev ∈ (relayProgram.run 2).2.trace,
      Explains (analyze relayProgram .trusting relayFacts false).nodeFacts ev) ∧
    relayFacts.ParamsHold echo [] ∧ relayFacts.ReturnHolds relay .undefined := by
  have hregular : relayProgram.Regular := by
    refine ⟨by decide, fun _ d hd => ?_⟩
    simp [Program.nodes, relayProgram, relay, echo, stmtNodes, Stmt.nodes, Func.nodes, Block.nodes,
      Expr.nodes, exprNodes, exprNodes?] at hd
  have hfixed : ((analyze relayProgram .trusting relayFacts false).facts == relayFacts) = true := by
    decide +kernel
  have hcalls : (relayProgram.run 2).2.calls = [(echo, []), (relay, [.bool true])] := rfl
  have hreturns : (relayProgram.run 2).2.returns = [(relay, .undefined), (echo, .undefined)] := rfl
  obtain ⟨htrace, hparams, hreturned⟩ := run_explained hregular (by decide +kernel) hfixed 2
  rw [hcalls] at hparams
  rw [hreturns] at hreturned
  exact ⟨htrace, hparams (echo, []) List.mem_cons_self,
    hreturned (relay, .undefined) List.mem_cons_self⟩

end EsOptimizer
