import EsOptimizer.Analysis
import EsOptimizer.Proofs.Simulation.Binding
import EsOptimizer.Proofs.Simulation.Body

/-!
# Calls of plain functions

A call starts with its parameters and variables in force (`Func.entry`), and so does the analysis of
the body: the layout that the scope of the function gives fits both. From there the body is followed
as `completes_onStmts` says, and what the analysis sums up holds what the call returns.
-/

namespace EsOptimizer

/-! ## The variables of a call -/

namespace Env

/-- Variables without values. -/
def blank (names : List String) : Env := names.map fun name => (name, .undefined)

variable {env : Env} {name other : String} {value : Primitive}

theorem has_append (rest : Env) (h : env.has name = true) : Env.has (env ++ rest) name = true := by
  obtain ⟨x, hx⟩ := Option.isSome_iff_exists.mp h
  rw [has, List.lookup_append, hx]
  rfl

theorem has_assign (env : Env) (name other : String) (value : Primitive) :
    (env.assign name value).has other = env.has other := by
  induction env with
  | nil => rfl
  | cons e rest ih =>
    rw [assign]
    split
    · rw [has, has, List.lookup_cons, List.lookup_cons]
      split <;> rfl
    · rw [has, has, List.lookup_cons, List.lookup_cons]
      split
      · rfl
      · exact ih

theorem assign_append (rest : Env) (h : env.has name = true) :
    assign name value (env ++ rest) = env.assign name value ++ rest := by
  induction env with
  | nil => cases h
  | cons e more ih =>
    obtain ⟨x, old⟩ := e
    rw [List.cons_append, assign, assign]
    split
    · rfl
    · rename_i hne
      rw [has, List.lookup_cons, beq_eq_false_iff_ne.mpr hne] at h
      rw [ih h]
      rfl

theorem assign_append_of_not_has (rest : Env) (h : env.has name = false) :
    assign name value (env ++ rest) = env ++ rest.assign name value := by
  induction env with
  | nil => rfl
  | cons e more ih =>
    obtain ⟨x, old⟩ := e
    rw [has, List.lookup_cons] at h
    split at h
    · cases h
    · rename_i hne
      rw [List.cons_append, assign, if_neg (beq_eq_false_iff_ne.mp hne), ih h]
      rfl

theorem has_declare (h : env.has name = true) : (env.declare other).has name = true := by
  rw [declare]
  split
  · exact h
  · exact has_append _ h

theorem has_declare_self (env : Env) (name : String) : (env.declare name).has name = true := by
  rw [declare]
  split
  · assumption
  · rename_i h
    have hnone : env.lookup name = none := by
      rw [has] at h
      exact Option.not_isSome_iff_eq_none.mp h
    rw [has, List.lookup_append, hnone, List.lookup_cons, beq_self_eq_true]
    rfl

/-- A parameter is declared and then assigned. -/
theorem bindParam_eq (env : Env) (name : String) (value : Primitive) :
    env.bindParam name value = (env.declare name).assign name value := by
  rw [bindParam, declare]
  split
  · rfl
  · rename_i h
    rw [assign_append_of_not_has _ (Bool.eq_false_iff.mpr h), assign, if_pos rfl]

/-- A variable that exists may as well be assigned after others are declared. -/
theorem declare_assign (h : env.has name = true) :
    (env.assign name value).declare other = (env.declare other).assign name value := by
  rw [declare, declare, has_assign]
  split
  · rfl
  · exact (assign_append _ h).symm

theorem declareAll_assign (names : List String) (h : env.has name = true) :
    names.foldl declare (env.assign name value) = (names.foldl declare env).assign name value := by
  induction names generalizing env with
  | nil => rfl
  | cons x rest ih => rw [List.foldl_cons, declare_assign h, ih (has_declare h), List.foldl_cons]

/-- Gives names their values, in this order. -/
def assignAll (items : List (String × Primitive)) (env : Env) : Env :=
  items.foldl (fun env e => env.assign e.1 e.2) env

/-- All parameters are declared and then assigned. -/
theorem bindParams_eq (items : List (String × Primitive)) (env : Env) :
    items.foldl (fun env e => env.bindParam e.1 e.2) env =
      assignAll items ((items.map (·.1)).foldl declare env) := by
  induction items generalizing env with
  | nil => rfl
  | cons e rest ih =>
    rw [List.foldl_cons, ih, bindParam_eq, declareAll_assign _ (has_declare_self env e.1)]
    rfl

theorem has_declareAll {names : List String} {env : Env} (h : env.has name = true ∨ name ∈ names) :
    (names.foldl declare env).has name = true := by
  induction names generalizing env with
  | nil => exact h.resolve_right List.not_mem_nil
  | cons x rest ih =>
    refine ih ?_
    rcases h with h | h
    · exact Or.inl (has_declare h)
    · rcases List.mem_cons.mp h with rfl | h
      · exact Or.inl (has_declare_self env name)
      · exact Or.inr h

theorem declareAll_assignAll {items : List (String × Primitive)} (names : List String)
    (h : ∀ e ∈ items, env.has e.1 = true) :
    names.foldl declare (assignAll items env) = assignAll items (names.foldl declare env) := by
  induction items generalizing env with
  | nil => rfl
  | cons e rest ih =>
    obtain ⟨he, hrest⟩ := List.forall_mem_cons.mp h
    have hrest' : ∀ d ∈ rest, (env.assign e.1 e.2).has d.1 = true :=
      fun d hd => (has_assign env e.1 d.1 e.2).trans (hrest d hd)
    rw [assignAll, List.foldl_cons]
    refine (ih hrest').trans ?_
    rw [declareAll_assign names he]
    rfl

theorem declare_blank (names : List String) (name : String) :
    (blank names).declare name = blank (addName names name) := by
  have hhas : (blank names).has name = decide (name ∈ names) := by
    induction names with
    | nil => rfl
    | cons x rest ih =>
      change (List.lookup name ((x, Primitive.undefined) :: blank rest)).isSome = _
      rw [List.lookup_cons]
      by_cases hname : name = x
      · simp [hname]
      · rw [beq_eq_false_iff_ne.mpr hname]
        change (blank rest).has name = _
        rw [ih]
        simp [hname]
  rw [declare, hhas, addName]
  by_cases hname : name ∈ names
  · rw [if_pos (decide_eq_true hname), if_pos hname]
  · rw [if_neg (by simp [hname]), if_neg hname, blank, blank, List.map_append]
    rfl

theorem declareAll_blank (names more : List String) :
    more.foldl declare (blank names) = blank (more.foldl addName names) := by
  induction more generalizing names with
  | nil => rfl
  | cons x rest ih => rw [List.foldl_cons, declare_blank, ih, List.foldl_cons]

end Env

namespace Func

/-- The parameters and their values. -/
def bindings (f : Func) (args : List Primitive) : List (String × Primitive) :=
  (f.params.map (·.name)).zip (f.arguments args)

theorem length_arguments (f : Func) (args : List Primitive) :
    (f.arguments args).length = f.params.length := by
  rw [arguments, List.length_map, List.length_range]

/-- A call starts with all names declared and the parameters assigned. -/
theorem entry_eq (f : Func) (args : List Primitive) :
    f.entry args = Env.assignAll (f.bindings args) (Env.blank (namesOf f.ownNames)) := by
  have hparams : (f.params.zip (f.arguments args)).foldl
      (fun env e => Env.bindParam env e.1.name e.2) [] =
        (f.bindings args).foldl (fun env e => Env.bindParam env e.1 e.2) [] := by
    rw [bindings, List.zip_map_left, List.foldl_map]
    rfl
  have hnames : (f.bindings args).map (·.1) = f.params.map (·.name) := by
    rw [bindings, List.map_fst_zip]
    rw [List.length_map, f.length_arguments args]
  have hhas : ∀ e ∈ f.bindings args,
      Env.has ((f.params.map (·.name)).foldl Env.declare []) e.1 = true := by
    intro e he
    exact Env.has_declareAll (Or.inr (hnames ▸ List.mem_map_of_mem he))
  rw [entry, hparams, Env.bindParams_eq, hnames,
    ← List.foldl_map (f := Ident.name) (g := Env.declare), Env.declareAll_assignAll _ hhas,
    ← List.foldl_append]
  exact congrArg _ (Env.declareAll_blank [] f.ownNames)

end Func

/-! ## The layout of a function -/

section

variable {t : ScopeTree} {constants : List String} {f : Func} {info : FunctionInfo} {Δ : Layout}

theorem ScopeTree.Declared.names_eq (h : t.Declared f info Δ)
    (hflat : f.HasFlatBody) : Δ.map (·.1) = namesOf f.ownNames := by
  rw [h.names, Func.declarations, declarations, hflat.noFunctions, List.map_nil,
    List.append_nil, List.map_append, List.map_map, List.map_map]
  rfl

/-- The variables of a plain function are parameters or declared with `var`. -/
theorem ScopeTree.Declared.kind (h : t.Declared f info Δ) (hflat : f.HasFlatBody)
    {x : String × VarId} (hx : x ∈ Δ) : (t.var x.2).kind = .var ∨ (t.var x.2).kind = .param := by
  obtain ⟨d, hmem, hmade⟩ := h.made x hx
  rw [Func.declarations, declarations, hflat.noFunctions, List.map_nil,
    List.append_nil] at hmem
  rcases List.mem_append.mp hmem with hmem | hmem
  · obtain ⟨p, -, rfl⟩ := List.mem_map.mp hmem
    exact Or.inr hmade.kind
  · obtain ⟨i, -, rfl⟩ := List.mem_map.mp hmem
    exact Or.inl hmade.kind

/-- A variable has one name, so variables with different names are different. -/
theorem Layout.nodup_vars (ht : t.Ok) {s : ScopeId} (hmem : ∀ x ∈ Δ, x ∈ (t.scope s).vars)
    (hnodup : (Δ.map (·.1)).Nodup) : Δ.vars.Nodup := by
  have hname : Δ.map (·.1) = Δ.vars.map fun v => (t.var v).name := by
    rw [Layout.vars, List.map_map]
    exact List.map_congr_left fun x hx => (ht.listed _ x (hmem x hx)).2.2.symm
  exact List.Nodup.of_map _ (hname ▸ hnodup)

/-- The variables of a plain function, where its body starts. -/
theorem ScopeTree.HasFunction.fits (h : t.HasFunction f info Δ) (ht : t.Ok)
    (hglobal : AreGlobal constants) (hflat : f.HasFlatBody)
    (hundeclared : ∀ c ∈ constants, Δ.lookup c = none →
      ∀ v, t.lookup info.scope c = some v → (t.var v).kind = .implicit) :
    Layout.Fits t constants info.scope info.scope Δ := by
  obtain ⟨own, hvars, -⟩ := h.vars
  have hmem {x : String × VarId} (hx : x ∈ Δ) : x ∈ (t.scope info.scope).vars :=
    hvars ▸ List.mem_append_left _ hx
  have hnodup : (Δ.map (·.1)).Nodup := by
    have hall := ht.distinct info.scope
    rw [hvars, List.map_append] at hall
    exact (List.nodup_append'.mp hall).1
  have hown : t.OwnWrites info.scope := by
    exact h.written hflat.flat
  have hvalid : Δ.Valid t info.scope := by
    refine ⟨?_, fun v hv => ?_⟩
    · exact Layout.nodup_vars ht (fun _ hx => hmem hx) hnodup
    · obtain ⟨x, hx, rfl⟩ := List.mem_map.mp hv
      refine hown.owns ht h.inner .refl h.fnScope (hmem hx) ?_
      rcases h.kind hflat hx with hk | hk
      · exact Or.inl hk
      · exact Or.inr (Or.inl hk)
  refine ⟨⟨ht, hvalid.declared, fun {name v} hv => ?_, fun v hv => ?_⟩, hglobal, hown, h.inner,
    hvalid, .refl, h.fnScope, hundeclared⟩
  · rw [ScopeTree.lookup_eq ht, hvars, List.lookup_append, hv]
    rfl
  · obtain ⟨x, hx, rfl⟩ := List.mem_map.mp hv
    exact (ht.listed _ x (hmem hx)).2.1.le

end

/-! ## Entering a function -/

/-- What the facts say of the parameters of a function holds the arguments of a call. -/
def Facts.ParamsHold (facts : Facts) (f : Func) (args : List Primitive) : Prop :=
  ∀ i < f.params.length, (((facts.params[f.id]?).getD []).getD i .unknown).Holds
    (.primitive (args.getD i .undefined))

namespace Track

def bindParams (params : List VarId) (values : List Value) : Track Unit := do
  for (id, value) in params.zip values do
    writeVar id value

/-- Binds the own name of a function that has one. -/
def bindName (function : NodeId) (info : FunctionInfo) : Track Unit := do
  match info.nameVar with
  | some name => if !info.isDecl then writeVar name (.ofReference (.function function))
  | none => pure ()

/-- Starts on the body of a function. -/
def startFunction (fn : Func) (info : FunctionInfo) : Track Unit := do
  enterBody info.scope
  bindParams info.params (← paramValues fn.id info.params.length)
  bindName fn.id info
  enterScope info.scope

/-- Notes what the body of a function was found to do. -/
def sumUp (function : NodeId) : Track Unit := do
  let returns ← returned
  modify fun p =>
    { p with summaries := p.summaries.insert function ⟨returns, !p.frame.effects⟩ }

variable {cx : Context}

theorem onFunction_unknown {fn : Func} (h : cx.scopes.function? fn.id = none) (p : Progress) :
    onFunction fn cx p = ((), p) := by
  rw [onFunction, bind_apply, show (read : Track Context) cx p = (cx, p) from rfl, h]
  rfl

theorem onFunction_apply {fn : Func} {info : FunctionInfo}
    (h : cx.scopes.function? fn.id = some info) (p : Progress) :
    onFunction fn cx p =
      sumUp fn.id cx (onStmts fn.body.stmts cx (startFunction fn info cx p).2).2 := by
  rw [onFunction, bind_apply, show (read : Track Context) cx p = (cx, p) from rfl, h]
  obtain ⟨scope, params, _, _, nameVar, isDecl⟩ := info
  cases nameVar with
  | none => rfl
  | some v => cases isDecl <;> rfl

theorem returned_apply (p : Progress) : returned cx p = (match p.frame.returns with
    | none => return .undefined
    | some returns => return if p.state.isDead then returns else returns.or .undefined :
      Track Value) cx p := rfl

theorem sumUp_apply (function : NodeId) (p : Progress) : (sumUp function cx p).2 =
    { p with summaries :=
        p.summaries.insert function ⟨(returned cx p).1, !p.frame.effects⟩ } := by
  have hsame : (returned cx p).2 = p := by
    rw [returned_apply]
    cases p.frame.returns <;> rfl
  have happly : (sumUp function cx p).2 = { (returned cx p).2 with
      summaries := (returned cx p).2.summaries.insert function
        ⟨(returned cx p).1, !(returned cx p).2.frame.effects⟩ } := rfl
  rw [happly, hsame]

theorem allocateFunction_result (id : NodeId) (p : Progress) :
    (allocateFunction id cx p).1 = .function id := rfl

/-- Entering a scope keeps what giving its variables their first values and allocating its functions
keep. -/
theorem enterScope_keeps {I : Progress → Prop} {s : ScopeId} {p : Progress}
    (hvars : ∀ x ∈ (cx.scopes.scope s).vars, ∀ value, cx.scopes.initialValue x.2 = some value →
      ∀ q, I q → I (writeVar x.2 value cx q).2)
    (hhoisted : ∀ x ∈ (cx.scopes.scope s).hoisted, ∀ q, I q →
      I (writeVar x.1 (.ofReference (.function x.2)) cx (allocateFunction x.2 cx q).2).2)
    (hp : I p) : I (enterScope s cx p).2 := by
  rw [enterScope_apply, bind_apply]
  refine forIn_keeps (fun x hx _ q hq => ?_) _ (forIn_keeps (fun x hx _ q hq => ?_) _ hp)
  · obtain ⟨v, f⟩ := x
    dsimp only
    rw [bind_apply, bind_apply, allocateFunction_result]
    exact hhoisted _ hx q hq
  · obtain ⟨name, v⟩ := x
    dsimp only
    cases hvalue : cx.scopes.initialValue v with
    | none => exact hq
    | some value => exact hvars _ hx value hvalue q hq

end Track

section

variable {cx : Context} {fs : ScopeId} {Δ : Layout} {p : Progress} {ρ : Valuation}

/-- The parameters get their values. -/
theorem follows_params (hΔ : Δ.Valid cx.scopes fs) {ps : List Ident} {vs : List VarId}
    (hfound : List.Forall₂ (fun (p : Ident) v => Δ.lookup p.name = some v) ps vs)
    {values : List Value} {args : List Primitive}
    (hholds : List.Forall₂ (fun (v : Value) x => v.Holds (.primitive x)) values args)
    (hp : Follows cx fs Δ p ρ) : ∃ ρ',
      Follows cx fs Δ (Track.bindParams vs values cx p).2 ρ' ∧
      Env.assignAll ((ps.map (·.name)).zip args) (Δ.env ρ) = Δ.env ρ' ∧
      ∀ v, v ∉ vs → ρ' v = ρ v := by
  induction hfound generalizing values args p ρ with
  | nil => exact ⟨ρ, hp, rfl, fun _ _ => rfl⟩
  | @cons i v is vs hv hfound ih =>
    cases hholds with
    | nil => exact ⟨ρ, hp, rfl, fun _ _ => rfl⟩
    | @cons value x values args hx hholds =>
      have howns := hΔ.owns v (Layout.mem_vars_of_lookup hv)
      obtain ⟨ρ', hfollows, henv, hrest⟩ := ih hholds (hp.writeVar howns.toIsFollowed hx)
      refine ⟨ρ', ?_, ?_, fun u hu => ?_⟩
      · rw [Track.bindParams, List.zip_cons_cons, List.forIn_cons]
        exact hfollows
      · rw [← henv, ← Layout.assign_env hΔ.nodup ρ x hv]
        rfl
      · obtain ⟨huv, hu⟩ := not_or.mp (List.mem_cons.not.mp hu)
        rw [hrest u hu]
        exact if_neg huv

/-- A variable gets the value that it has. -/
theorem Follows.rewrite {v : VarId} {value : Value} (hp : Follows cx fs Δ p ρ)
    (hv : cx.scopes.IsFollowed fs v) (h : value.Holds (.primitive (ρ v))) :
    Follows cx fs Δ (Track.writeVar v value cx p).2 ρ := by
  have hset : ρ.set v (ρ v) = ρ := by
    funext u
    rw [Valuation.set]
    split
    · rename_i huv
      rw [huv]
    · rfl
  exact hset ▸ hp.writeVar hv h

/-- A variable that is not in force gets a value. -/
theorem Follows.writeOther {v : VarId} (hp : Follows cx fs Δ p ρ) (value : Value) (hv : v ∉ Δ.vars) :
    Follows cx fs Δ (Track.writeVar v value cx p).2 ρ := by
  refine hp.advance (Track.moves_writeVar (b := ⟨fun _ => False, (· = v), False⟩) rfl value p) ?_
  rintro u hu rfl
  exact hv hu

/-- Variables start with the values that they have. -/
theorem follows_enterScope {s : ScopeId}
    (hhoisted : ∀ x ∈ (cx.scopes.scope s).hoisted, x.1 ∉ Δ.vars)
    (hΔ : ∀ v ∈ Δ.vars, cx.scopes.IsFollowed fs v) (hinitial : ∀ x ∈ (cx.scopes.scope s).vars, ∀ value,
      cx.scopes.initialValue x.2 = some value → x.2 ∈ Δ.vars → value.Holds (.primitive (ρ x.2)))
    (hp : Follows cx fs Δ p ρ) : Follows cx fs Δ (Track.enterScope s cx p).2 ρ := by
  refine Track.enterScope_keeps (I := (Follows cx fs Δ · ρ)) (fun x hx value hvalue q hq => ?_)
    (fun x hx q hq => ?_) hp
  · by_cases hv : x.2 ∈ Δ.vars
    · exact hq.rewrite (hΔ x.2 hv) (hinitial _ hx value hvalue hv)
    · exact hq.writeOther value hv
  · have hallocated : Follows cx fs Δ (Track.allocateFunction x.2 cx q).2 ρ :=
      hq.advance (Track.moves_allocateFunction (b := .none) x.2 q) fun _ _ h => h
    exact hallocated.writeOther _ (hhoisted x hx)

variable {constants : List String} {f : Func} {info : FunctionInfo} {args : List Primitive}

theorem Facts.ParamsHold.forall₂ {facts : Facts} (h : facts.ParamsHold f args) :
    List.Forall₂ (fun (v : Value) x => v.Holds (.primitive x))
      ((List.range f.params.length).map fun i => ((facts.params[f.id]?).getD []).getD i .unknown)
      (f.arguments args) := by
  rw [Func.arguments, List.forall₂_map_left_iff, List.forall₂_map_right_iff, List.forall₂_same]
  exact fun i hi => h i (List.mem_range.mp hi)

/-- The place where the analysis of a body starts. -/
def Progress.atBody (p : Progress) (scope : ScopeId) : Progress :=
  { p with state := {}, frame := { scope } }

theorem Track.onProgram_apply (program : Program) (p : Progress) :
    Track.onProgram program cx p = Track.onStmts program.body cx
      (Track.enterScope ScopeTree.root cx (p.atBody ScopeTree.root)).2 := rfl

theorem Track.onAll_apply (program : Program) (p : Progress) : Track.onAll program cx p =
    program.functions.forM Track.onFunction cx (Track.onProgram program cx p).2 := rfl

/-- What a run of the analysis over a program comes to. -/
def Context.result (cx : Context) (p : Program) : Progress :=
  (Track.onAll p cx { frame := { scope := ScopeTree.root } }).2

/-- What is kept of a run. -/
def Context.analysis (cx : Context) (p : Program) : Analysis where
  scopes := cx.scopes
  nodeFacts := (cx.result p).nodeFacts
  forInKeys := (cx.result p).forInKeys.filterMap fun _ keys => keys
  facts := {
    params := publishedParams cx.options cx.scopes (cx.result p).calls
    possible := (cx.result p).possible
    summaries := (cx.result p).summaries
    escaped := (cx.result p).escaped }
  events := (cx.result p).events

theorem analyze_eq (p : Program) (options : Options) (prev : Facts) (watch : Bool) :
    analyze p options prev watch =
      Context.analysis { options, scopes := .ofProgram p, prev, watch } p := by
  unfold analyze Context.analysis Context.result
  simp only [ReaderT.run, StateT.run]
  generalize Track.onAll p _ _ = run
  rfl

theorem Context.analysis_nodeFacts (cx : Context) (p : Program) :
    (cx.analysis p).nodeFacts = (cx.result p).nodeFacts := rfl

theorem Context.analysis_facts (cx : Context) (p : Program) : (cx.analysis p).facts =
    { params := publishedParams cx.options cx.scopes (cx.result p).calls
      possible := (cx.result p).possible
      summaries := (cx.result p).summaries
      escaped := (cx.result p).escaped } := rfl

/-- Nothing has a value yet, but what is declared with `var` starts as `undefined`. -/
theorem follows_atBody (h : cx.scopes.HasFunction f info Δ) (hflat : f.HasFlatBody)
    (p : Progress) : Follows cx info.scope Δ (p.atBody info.scope) fun _ => .undefined := by
  refine ⟨rfl, fun v hv => ?_⟩
  obtain ⟨x, hx, rfl⟩ := List.mem_map.mp hv
  change ((cx.scopes.var x.2).initial.getD .unknown).Holds _
  rw [h.initial hx]
  rcases h.kind hflat hx with hk | hk <;> rw [hk]
  · exact Value.holds_ofPrimitive _
  · exact Value.holds_unknown _

/-- Only variables are written, and control goes on. -/
def Bounds.binding : Bounds := ⟨fun _ => False, fun _ => True, False⟩

theorem moves_startFunction (cx : Context) (f : Func) (info : FunctionInfo) (p : Progress) :
    Advances cx.scopes .binding (p.atBody info.scope) (Track.startFunction f info cx p).2 := by
  have hparams (values : List Value) :
      Track.Moves cx .binding (Track.bindParams info.params values) :=
    (Track.Moves.forIn (fun _ _ => (Track.moves_writeVar trivial _).bind fun _ =>
      Track.Moves.pure _) _ _).bind fun _ => Track.Moves.pure _
  have hname : Track.Moves cx .binding (Track.bindName f.id info) := by
    unfold Track.bindName
    split
    · exact Track.Moves.ite (fun _ => Track.moves_writeVar trivial _) fun _ => Track.Moves.pure _
    · exact Track.Moves.pure _
  have henter : Track.Moves cx .binding (Track.enterScope info.scope) :=
    Track.moves_enterScope ⟨fun _ _ _ => trivial, fun _ _ => trivial⟩
  exact ((hparams _).bind fun _ => hname.bind fun _ => henter) (p.atBody info.scope)

/-- The variable of a function's own name is not one of its others. -/
theorem ownName_not_mem (h : cx.scopes.HasFunction f info Δ) (hflat : f.HasFlatBody)
    (hdecl : info.isDecl = false) {v : VarId} (hv : info.nameVar = some v) : v ∉ Δ.vars := by
  obtain ⟨own, -, hkinds, hname, -⟩ := h.vars
  intro hmem
  obtain ⟨x, hx, rfl⟩ := List.mem_map.mp (hname hdecl v hv)
  obtain ⟨y, hy, hyx⟩ := List.mem_map.mp hmem
  have hkind := hkinds x hx
  rw [← hyx] at hkind
  rcases h.kind hflat hy with hk | hk <;> rw [hk] at hkind <;> cases hkind

/-- What a variable of a plain function starts with, it has after the parameters got their
values. -/
theorem initial_holds (h : cx.scopes.HasFunction f info Δ) (hflat : f.HasFlatBody)
    (hother : ∀ v, v ∉ info.params → ρ v = .undefined) {v : VarId} {value : Value}
    (hvalue : cx.scopes.initialValue v = some value) (hv : v ∈ Δ.vars) :
    value.Holds (.primitive (ρ v)) := by
  obtain ⟨x, hx, rfl⟩ := List.mem_map.mp hv
  rw [ScopeTree.initialValue, h.initial hx] at hvalue
  rcases h.kind hflat hx with hk | hk <;> rw [hk] at hvalue <;> cases hvalue
  rw [hother x.2 fun hparam => ?_]
  · exact Value.holds_ofPrimitive _
  · have hkind := h.paramKinds x.2 hparam
    rw [hk] at hkind
    cases hkind

/-- When the body of a plain function starts, the analysis knows its variables. -/
theorem follows_startFunction (h : cx.scopes.HasFunction f info Δ)
    (hfits : Δ.Fits cx.scopes constants info.scope info.scope) (hflat : f.HasFlatBody)
    (hargs : cx.prev.ParamsHold f args) (p : Progress) : ∃ ρ,
      Follows cx info.scope Δ (Track.startFunction f info cx p).2 ρ ∧ f.entry args = Δ.env ρ := by
  obtain ⟨ρ, hfollows, henv, hother⟩ := follows_params hfits.valid h.params hargs.forall₂
    (follows_atBody h hflat p)
  refine ⟨ρ, ?_, ?_⟩
  · have hhoisted : (cx.scopes.scope info.scope).hoisted = [] := by
      have hnone := h.hoisted
      rw [hflat.noFunctions] at hnone
      exact List.forall₂_nil_left_iff.mp hnone
    rw [h.params.length_eq] at hfollows
    have hnamed {q : Progress} (hq : Follows cx info.scope Δ q ρ) :
        Follows cx info.scope Δ (Track.bindName f.id info cx q).2 ρ := by
      unfold Track.bindName
      cases hv : info.nameVar with
      | none => exact hq
      | some v =>
        cases hdecl : info.isDecl with
        | false => exact hq.writeOther _ (ownName_not_mem h hflat hdecl hv)
        | true => exact hq
    refine follows_enterScope ?_ (fun v hv => (hfits.valid.owns v hv).toIsFollowed)
      (fun x _ value hvalue hx => initial_holds h hflat hother hvalue hx) (hnamed hfollows)
    rw [hhoisted]
    exact nofun
  · rw [Func.entry_eq, ← henv, Func.bindings, ← h.names_eq hflat, Env.blank, Layout.env,
      List.map_map]
    rfl

/-! ## The body of a function -/

theorem mem_foldl_addName {names more : List String} {name : String} :
    name ∈ more.foldl addName names ↔ name ∈ names ∨ name ∈ more := by
  induction more generalizing names with
  | nil => simp
  | cons x rest ih =>
    have hadd : name ∈ addName names x ↔ name ∈ names ∨ name = x := by
      unfold addName
      split
      · rename_i hx
        exact ⟨Or.inl, fun h => h.elim id fun h => h ▸ hx⟩
      · rw [List.mem_append, List.mem_singleton]
    rw [List.foldl_cons, ih, hadd, List.mem_cons, or_assoc]

theorem mem_namesOf {names : List String} {name : String} : name ∈ namesOf names ↔ name ∈ names := by
  rw [namesOf, mem_foldl_addName]
  exact ⟨fun h => h.resolve_left List.not_mem_nil, Or.inr⟩

theorem Layout.has_of_names {names : List String} (h : Δ.map (·.1) = namesOf names) :
    Δ.Has names := by
  intro name hname
  have hmem : name ∈ Δ.map (·.1) := h ▸ mem_namesOf.mpr (List.contains_iff_mem.mp hname)
  obtain ⟨x, hx, rfl⟩ := List.mem_map.mp hmem
  rw [Option.isSome_iff_ne_none]
  intro hnone
  exact ScopeTree.not_mem_of_lookup hnone (List.mem_map_of_mem hx)

/-- The names of a plain function are those of its variables. -/
theorem has_ownNames {t : ScopeTree} (h : t.HasFunction f info Δ)
    (hflat : f.HasFlatBody) : Δ.Has f.ownNames :=
  Layout.has_of_names (h.names_eq hflat)

/-- What a body was found to return holds what a run of it returned, or `undefined` if it came to
the end. -/
theorem returned_holds {q : Progress} {o : Option Primitive} (hreturns : Returns q o)
    (halive : o = none → q.state.isDead = false) :
    (Track.returned cx q).1.Holds (.primitive (o.getD .undefined)) := by
  rw [Track.returned_apply]
  cases o with
  | none =>
    cases q.frame.returns with
    | none => exact Value.holds_ofPrimitive _
    | some r =>
      change (if q.state.isDead = true then r else r.or .undefined).Holds _
      rw [if_neg (by rw [halive rfl]; exact Bool.false_ne_true)]
      exact Value.below_or_right r _ _ (Value.holds_ofPrimitive _)
  | some y =>
    obtain ⟨r, hr, hholds⟩ := hreturns y rfl
    rw [hr]
    change (if q.state.isDead = true then r else r.or .undefined).Holds _
    split
    · exact hholds
    · exact Value.below_or_left r _ _ hholds

theorem Outcome.eq_returned {o : Outcome} {x : Primitive} (h : o.result? = some (.returned x)) :
    x = o.returned?.getD .undefined ∧ (o.returned? = none → o = .normal) := by
  cases o <;> cases h <;> exact ⟨rfl, fun h => by cases h <;> rfl⟩

/-- Every evaluation in a call of a plain function is explained, and what the analysis sums up holds
the value that the call returns. -/
theorem explains_onFunction (h : cx.scopes.HasFunction f info Δ)
    (hfits : Δ.Fits cx.scopes constants info.scope info.scope) (hplain : f.hasPlainBody constants = true)
    (hcx : cx.Knows constants) (hargs : cx.prev.ParamsHold f args) (n : Nat) (p : Progress) :
    (∀ ev ∈ (f.exec n args).2.trace, Explains (Track.onFunction f cx p).2.nodeFacts ev) ∧
      ∀ x, (f.exec n args).1.result? = some (.returned x) →
        ∃ s, (Track.onFunction f cx p).2.summaries[f.id]? = some s ∧ s.returns.Holds (.primitive x) := by
  have hflat := Func.hasFlatBody_of_plain hplain
  have hbound := stmtsBound f.body.stmts hfits (has_ownNames h hflat) hplain h.body
  obtain ⟨ρ, hfollows, henv⟩ := follows_startFunction h hfits hflat hargs p
  have halive : (Track.startFunction f info cx p).2.state.isDead = false :=
    (moves_startFunction cx f info p).alive id
  obtain ⟨ρ', hran, hreturns, hgo⟩ := (completes_onStmts h.inner hcx n f.body.stmts hfits.valid
    hbound).runs halive hfollows (w := { env := f.entry args }) henv
  rw [Track.onFunction_apply h.function, Track.sumUp_apply]
  refine ⟨fun ev hev => ?_, fun x hx => ⟨_, Std.TreeMap.getElem?_insert_self, ?_⟩⟩
  · obtain ⟨new, htrace, hnew⟩ := hran.trace
    refine hnew ev ?_
    have htrace : (f.exec n args).2.trace = new ++ [] := htrace
    rwa [htrace, List.append_nil] at hev
  · obtain ⟨rfl, hnormal⟩ := Outcome.eq_returned hx
    exact returned_holds hreturns fun ho => (hgo (hnormal ho)).1

end

end EsOptimizer
