import EsOptimizer.Proofs.Pass.Legal
import EsOptimizer.Proofs.Rewrite.DeadBranches
import EsOptimizer.Proofs.Rewrite.FoldConstants
import EsOptimizer.Proofs.Rewrite.SimplifyBlocks
import EsOptimizer.Proofs.Run.Bound
import EsOptimizer.Proofs.Simulation.FixedPoint

/-!
# Changed functions give the same results

Removing dead branches, folding constants and simplifying blocks keep the results of plain functions,
if they go by facts that stay the same from one run of the analysis to the next. Such facts explain
every call, a change that goes by them leaves a body which may take the place of the one before, and
then calls start from variables that agree and end alike.
-/

namespace EsOptimizer

/-! ## Variables at the start -/

namespace Env

theorem lookup_declare (env : Env) (x y : String) :
    (env.declare x).lookup y = (env.lookup y).or (if y = x then some .undefined else none) := by
  rw [declare]
  split
  · rename_i hhas
    by_cases hy : y = x
    · rw [if_pos hy, hy]
      obtain ⟨p, hp⟩ := Option.isSome_iff_exists.mp hhas
      rw [hp]
      rfl
    · rw [if_neg hy, Option.or_none]
  · rw [List.lookup_append, lookup_cons]
    rfl

theorem lookup_declareAll (names : List Ident) (env : Env) (y : String) :
    (names.foldl (fun env x => env.declare x.name) env).lookup y =
      (env.lookup y).or (if y ∈ names.map (·.name) then some .undefined else none) := by
  induction names generalizing env with
  | nil => simp
  | cons x rest ih =>
    rw [List.foldl_cons, ih, lookup_declare, Option.or_assoc]
    by_cases hy : y = x.name
    · simp [hy]
    · simp [hy]

end Env

namespace Func

/-- The variables at the start depend on the parameters and on which names are declared. -/
theorem lookup_entry_congr {f g : Func} (hparams : g.params = f.params)
    (hnames : ∀ x, Declares (stmtNodes false g.body.stmts) x ↔
      Declares (stmtNodes false f.body.stmts) x) (args : List Primitive) (y : String) :
    (g.entry args).lookup y = (f.entry args).lookup y := by
  have hvars : y ∈ g.varNames.map (·.name) ↔ y ∈ f.varNames.map (·.name) := by
    rw [varNames, varNames, ← declares_iff, ← declares_iff, hnames y]
  rw [entry, entry, Env.lookup_declareAll, Env.lookup_declareAll, arguments, arguments, hparams]
  simp only [hvars]

end Func

/-! ## Results -/

/-- Outcomes that are alike give results that are the same. -/
theorem Outcome.Alike.result {loops : List String} {o o' : Outcome} (h : Alike loops o o') :
    Option.Rel (fun r r' => r.same r' = true) o.result? o'.result? := by
  cases h with
  | normal => exact .some BEq.rfl
  | «return» h | throw h => exact .some h
  | «break» label | «continue» h | cutOff => exact .none

theorem Result.same_refl (r : Result) : r.same r = true := by
  cases r <;> exact BEq.rfl

/-- Calls of two functions with these arguments end with the same result, or neither ends. -/
structure Func.SameResult (f g : Func) (args : List Primitive) : Prop where
  ends : (∃ r, f.Yields args r) ↔ ∃ r, g.Yields args r
  same : ∀ r r', f.Yields args r → g.Yields args r' → r.same r' = true

theorem Func.SameResult.refl (f : Func) (args : List Primitive) : f.SameResult f args where
  ends := Iff.rfl
  same r r' h h' := by
    cases Func.yields_unique h h'
    exact r.same_refl

/-- A body that may take the place of the one before gives the same results. -/
theorem Func.sameResult_of_stands {b : Basis} {f g : Func} {args : List Primitive}
    (hstands : StmtsStand b [] f.body.stmts g.body.stmts) (hplaced : f.body.isPlaced .function = true)
    (hagree : Env.Agree b.named [] (f.entry args) (g.entry args))
    (hexplained : ∀ n, b.Explained (f.exec n args).2) : f.SameResult g args := by
  have hends (n : Nat) : Option.Rel (fun r r' => r.same r' = true) (f.exec n args).1.result?
      (g.exec n args).1.result? := by
    have hall : allPlaced .function f.body.stmts = true := by
      obtain ⟨id, params, ⟨bodyId, ss⟩⟩ := f
      exact hplaced
    exact (hstands.exec n .function ⟨List.nil_subset _, nofun⟩ rfl hall { env := f.entry args }
      { env := g.entry args } hagree (hexplained n)).1.result
  have hforth {n : Nat} {r : Result} (h : (f.exec n args).1.result? = some r) :
      ∃ r', (g.exec n args).1.result? = some r' ∧ r.same r' = true := by
    have hrel := hends n
    rw [h] at hrel
    generalize (g.exec n args).1.result? = result at hrel
    cases hrel with
    | some hsame => exact ⟨_, rfl, hsame⟩
  refine ⟨⟨fun ⟨r, n, h⟩ => ?_, fun ⟨r', n, h'⟩ => ?_⟩, fun r r' ⟨n, h⟩ h' => ?_⟩
  · obtain ⟨r', h', -⟩ := hforth h
    exact ⟨r', n, h'⟩
  · have hrel := hends n
    rw [h'] at hrel
    generalize hresult : (f.exec n args).1.result? = result at hrel
    cases hrel with
    | some _ => exact ⟨_, n, hresult⟩
  · obtain ⟨r'', h'', hsame⟩ := hforth h
    cases Func.yields_unique h' ⟨n, h''⟩
    exact hsame

/-! ## Facts of a program -/

/-- A legal program with ids of its own. -/
theorem Source.Numbered.regular {src : Source} (h : src.Numbered)
    (hlegal : src.program.isLegal = true) : src.program.Regular := by
  refine ⟨h.nodup, fun _ d hd x hx => ?_⟩
  have hd := (Program.isLegal_iff.mp hlegal).1 _ hd
  obtain ⟨id, kind, ds⟩ := d
  match ds with
  | [y] =>
    cases List.mem_singleton.mp hx
    exact Option.isNone_iff_eq_none.mp hd
  | [] | _ :: _ :: _ => cases hd

section

variable {src : Source} {options : Options} {prev : Facts} {constants : List String} {f : Func}
  {args : List Primitive}

/-- What an analysis allows to rely on. -/
def Source.Numbered.basis (h : src.Numbered) (hlegal : src.program.isLegal = true)
    (options : Options) (prev : Facts) : Basis where
  scopes := ScopeTree.ofProgram src.program
  ok := (ScopeTree.knows_ofProgram (h.regular hlegal)).1
  facts := (analyze src.program options prev false).nodeFacts
  nextId := src.nextId
  unrecorded _ hid := factsOf_analyze_eq_none (· < src.nextId)
    (fun _ hn _ he => h.below _ (Program.operand_id_mem hn he)) (Nat.not_lt.mpr hid) options prev false

/-- At the start of a call, the variables of functions with the same parameters and declared names
agree. -/
theorem Layout.Fits.agree_entry {b : Basis} {info : FunctionInfo} {Δ : Layout} {g : Func}
    (hfits : Layout.Fits b.scopes constants info.scope info.scope Δ) {ρ : Valuation}
    (henv : f.entry args = Δ.env ρ) (hparams : g.params = f.params)
    (hnames : ∀ x, Declares (stmtNodes false g.body.stmts) x ↔
      Declares (stmtNodes false f.body.stmts) x) :
    Env.Agree b.named [] (f.entry args) (g.entry args) := by
  refine .base (fun x => ?_) fun x hx => ?_
  · rw [Func.lookup_entry_congr hparams hnames]
    cases (f.entry args).lookup x with
    | none => exact .none
    | some p => exact .some BEq.rfl
  · rw [henv, Env.has, Layout.lookup_env, Option.isSome_map] at hx
    obtain ⟨v, hv⟩ := Option.isSome_iff_exists.mp hx
    obtain ⟨s, -, hmem⟩ := ScopeTree.exists_encloses_of_lookup b.ok (hfits.finds hv)
    obtain ⟨hlt, -, hname⟩ := b.ok.listed s _ hmem
    refine ⟨v, hlt, hname, ?_⟩
    rcases (hfits.valid.owns v (Layout.mem_vars_of_lookup hv)).kind with hk | hk | hk <;> rw [hk] <;>
      decide

/-- The names of the global constants have their values from the start. -/
theorem globalConstants_known : ∀ c ∈ ["NaN", "Infinity"], ∃ x, globalConstant? c = some x ∧
    Host.global? c = some (.ofPrimitive x) := by
  intro c hc
  simp only [List.mem_cons, List.not_mem_nil, or_false] at hc
  rcases hc with rfl | rfl
  · exact ⟨_, rfl, rfl⟩
  · exact ⟨_, rfl, rfl⟩

/-- A traversal whose hooks go by a fixed point keeps the results of plain functions. -/
theorem Transform.Preserves.sameResult {t : Transform} (h : src.Numbered)
    (hlegal : src.program.isLegal = true) {member : List String → Stmt → Stmt → Prop}
    (ht : t.Preserves (h.basis hlegal options prev) member)
    (hcarries : t.Carries (h.basis hlegal options prev))
    (hfixed : ((analyze src.program options prev false).facts == prev) = true)
    (hf : f ∈ src.program.functions) (hplain : f.hasPlainBody ["NaN", "Infinity"] = true)
    (hundeclared : src.program.Undeclared ["NaN", "Infinity"] f) (hargs : prev.ParamsHold f args)
    (taken : List String) {g : Func} (hg : g ∈ (t.run src taken).1.program.functions)
    (hid : g.id = f.id) : f.SameResult g args := by
  have hregular := h.regular hlegal
  obtain ⟨f', hf', hmade⟩ := hcarries.functions_run src taken (Nat.le_refl _) hg
  have hsame : f' = f := by
    refine List.inj_on_of_nodup_map hregular.functions_nodup hf' hf (Eq.trans ?_ hid)
    rcases hmade with rfl | ⟨s, -, rfl⟩
    · rfl
    · exact (hcarries.id_onFunc f' s).symm
  subst hsame
  rcases hmade with rfl | ⟨s, hs, rfl⟩
  · exact .refl _ args
  have hglobal : AreGlobal ["NaN", "Infinity"] := fun c hc => by
    obtain ⟨x, -, hx⟩ := globalConstants_known c hc
    rw [hx]
    rfl
  let cx : Context := { options, scopes := ScopeTree.ofProgram src.program, prev }
  obtain ⟨info, Δ, hfunction, hfits⟩ : ∃ info Δ, cx.scopes.HasFunction f' info Δ ∧
    Layout.Fits cx.scopes ["NaN", "Infinity"] info.scope info.scope Δ :=
      exists_layout hregular hf' hplain hglobal hundeclared
  have hknown : cx.prev.ParamsHold f' args := hargs
  obtain ⟨ρ, -, henv⟩ := follows_startFunction hfunction hfits (Func.hasFlatBody_of_plain hplain)
    hknown { frame := { scope := 0 } }
  obtain ⟨-, hparams, hstands⟩ := (ht.onFunc hplain hfunction.body s hs).2
  have hplaced : f'.body.isPlaced .function = true :=
    (Program.isLegal_iff.mp hlegal).1 _ (mem_nodes_of_functions hf')
  have hknows := knows_of_fixed hfixed globalConstants_known
  exact Func.sameResult_of_stands hstands hplaced (hfits.agree_entry henv hparams hstands.names)
    fun n => (analyze_explains hregular hf' hplain hglobal hundeclared hknows hargs n).1

/-- Removing dead branches, folding constants and simplifying blocks preserve what plain functions
do. Take a program as the parser makes it, facts that an analysis of it gives back as it got them, a
plain function of it, and arguments that these facts allow for. A call of what the change makes of
the function ends if and only if a call of the function does, with the same value returned or
thrown. And what the program declares at its top level stays declared. -/
theorem results_preserved (h : src.Numbered) (hlegal : src.program.isLegal = true)
    (options : Options) (hfixed : ((analyze src.program options prev false).facts == prev) = true)
    (hf : f ∈ src.program.functions) (hplain : f.hasPlainBody ["NaN", "Infinity"] = true)
    (hundeclared : src.program.Undeclared ["NaN", "Infinity"] f) :
    ∀ pass ∈ [removeDeadBranches, foldConstants, simplifyBlocks],
      (∀ args, prev.ParamsHold f args →
        ∀ g ∈ (pass (analyze src.program options prev false) src).1.program.functions, g.id = f.id →
          f.SameResult g args) ∧
      ∀ id name, .function id name f ∈ src.program.body →
        ∃ g ∈ (pass (analyze src.program options prev false) src).1.program.functions, g.id = f.id := by
  have hall {t : Transform} {member : List String → Stmt → Stmt → Prop}
      (ht : t.Preserves (h.basis hlegal options prev) member)
      (hcarries : t.Carries (h.basis hlegal options prev)) :
      (∀ args, prev.ParamsHold f args → ∀ g ∈ (t.run src []).1.program.functions, g.id = f.id →
        f.SameResult g args) ∧ ∀ id name, .function id name f ∈ src.program.body →
          ∃ g ∈ (t.run src []).1.program.functions, g.id = f.id :=
    ⟨fun args hargs g => ht.sameResult h hlegal hcarries hfixed hf hplain hundeclared hargs [],
      fun id name => hcarries.declared_run src [] (Nat.le_refl _)⟩
  intro pass hpass
  simp only [List.mem_cons, List.not_mem_nil, or_false] at hpass
  rcases hpass with rfl | rfl | rfl
  · exact hall (DeadBranches.preserves rfl) DeadBranches.carries
  · exact hall (FoldConstants.preserves rfl rfl) FoldConstants.carries
  · exact hall (SimplifyBlocks.preserves rfl) SimplifyBlocks.carries

end

/-- `function settle(a) { if (NaN) a = 0; return true ? a : null; }` -/
def settle : Func :=
  ⟨15, [⟨1, "a"⟩], ⟨14, [
    .if 7 (.ident ⟨2, "NaN"⟩)
      (.expr 6 (.assign 5 .assign (.ident ⟨3, "a"⟩) (.number 4 .zero))) none,
    .return 13 (some (.cond 12 (.bool 8 true) (.ident ⟨9, "a"⟩) (.null 10)))]⟩⟩

/-- The declaration of `settle`, and no more. -/
def settleSource : Source := ⟨⟨18, [.function 17 ⟨16, "settle"⟩ settle]⟩, 19⟩

/-- What a run of the analysis finds out about `settle`, and the next one as well. -/
def settleFacts : Facts := (analyze settleSource.program {} {} false).facts

/-- What `pass` makes of `settle` gives a call with a string the result that `settle` gives it. -/
def settle.Keeps (pass : Analysis → Source → Source × Bool) : Prop :=
  ∃ g ∈ (pass (analyze settleSource.program {} settleFacts false) settleSource).1.program.functions,
    g.id = settle.id ∧ settle.SameResult g [.string "now"]

theorem settle_preserved : settle.Keeps removeDeadBranches ∧ settle.Keeps foldConstants ∧
    settle.Keeps simplifyBlocks := by
  have hnumbered : settleSource.Numbered := by
    refine ⟨by decide, by decide, fun id hid => ?_⟩
    simp [settleSource, settle, Program.nodes, stmtNodes, Stmt.nodes, stmtNodes?, Func.nodes,
      Block.nodes, Expr.nodes, exprNodes?] at hid
  have hfixed : ((analyze settleSource.program {} settleFacts false).facts == settleFacts) = true := by
    decide +kernel
  have hargs : settleFacts.ParamsHold settle [.string "now"] := fun i _ => by
    have hnone : (settleFacts.params[settle.id]?).isNone = true := by decide +kernel
    rw [Option.isNone_iff_eq_none.mp hnone]
    exact Value.holds_unknown _
  have hundeclared : settleSource.program.Undeclared ["NaN", "Infinity"] settle := by
    have hall : ((ScopeTree.ofProgram settleSource.program).function? settle.id).all (fun info =>
        ["NaN", "Infinity"].all fun c =>
          ((ScopeTree.ofProgram settleSource.program).lookup info.scope c).all fun v =>
            ((ScopeTree.ofProgram settleSource.program).var v).kind == .implicit) = true := by
      decide +kernel
    intro c hc _ info v hinfo hv
    rw [hinfo, Option.all_some, List.all_eq_true] at hall
    have hall := hall c hc
    rw [hv, Option.all_some] at hall
    exact beq_iff_eq.mp hall
  have hpreserved := results_preserved hnumbered (by decide +kernel) {} hfixed List.mem_cons_self
    (by decide +kernel) hundeclared
  have hkeeps : ∀ pass ∈ [removeDeadBranches, foldConstants, simplifyBlocks],
      settle.Keeps pass := by
    intro pass hpass
    obtain ⟨hresults, hdeclared⟩ := hpreserved pass hpass
    obtain ⟨g, hg, hid⟩ := hdeclared 17 ⟨16, "settle"⟩ List.mem_cons_self
    exact ⟨g, hg, hid, hresults _ hargs g hg hid⟩
  exact ⟨hkeeps _ (by simp), hkeeps _ (by simp), hkeeps _ (by simp)⟩

end EsOptimizer
