import EsOptimizer.Proofs.Simulation.Call
import EsOptimizer.Proofs.Syntax.Functions

/-!
# Plain functions of a program

A run of the analysis follows the body of every function once. What it finds in other bodies adds to
the facts and leaves the summary of a function alone (`Gathers`), so what holds of the analysis of
one body holds of the result of the run: the facts explain every call of a plain function whose
arguments the run before allows for.
-/

namespace EsOptimizer

/-! ## From body to body -/

/-- What was found out only grows, and functions other than `fns` keep their summaries. -/
structure Gathers (fns : List NodeId) (p q : Progress) : Prop where
  facts : GrowsBy NodeFacts.Below p.nodeFacts q.nodeFacts
  observed : Track.Observes p.calls q.calls
  possible : GrowsBy Value.Below p.possible q.possible
  summaries : ∀ id, id ∉ fns → q.summaries[id]? = p.summaries[id]?

namespace Gathers

theorem refl (fns : List NodeId) (p : Progress) : Gathers fns p p where
  facts := GrowsBy.refl NodeFacts.Below.refl _
  observed := Track.Observes.refl _
  possible := GrowsBy.refl Value.Below.refl _
  summaries := fun _ _ => rfl

theorem trans {fns more : List NodeId} {p q r : Progress} (h : Gathers fns p q)
    (h' : Gathers more q r) : Gathers (fns ++ more) p r where
  facts := GrowsBy.trans (R := NodeFacts.Below) (fun _ _ _ => .trans) h.facts h'.facts
  observed := h.observed.trans h'.observed
  possible := GrowsBy.trans (R := Value.Below) (fun _ _ _ => .trans) h.possible h'.possible
  summaries := fun id hid => by
    rw [List.mem_append, not_or] at hid
    rw [h'.summaries id hid.2, h.summaries id hid.1]

theorem calls {fns : List NodeId} {p q : Progress} (h : Gathers fns p q) :
    GrowsBy ArgsBelow p.calls q.calls :=
  h.observed.growsBy

end Gathers

theorem Advances.gathers {scopes : ScopeTree} {b : Bounds} {p q : Progress}
    (h : Advances scopes b p q) : Gathers [] p q where
  facts := h.facts
  observed := h.observed
  possible := h.possible
  summaries := fun _ _ => by rw [h.summaries]

/-- Any code stays within no bounds at all. -/
theorem allAllowed_all (scopes : ScopeTree) (ns : List Node) : AllAllowed scopes .all ns :=
  fun _ _ => ⟨fun _ _ => trivial, fun _ _ _ _ => trivial,
    fun _ _ _ _ => ⟨fun _ _ _ => trivial, fun _ _ => trivial⟩, fun _ => trivial⟩

section

variable {cx : Context}

theorem gathers_onFunction (f : Func) (p : Progress) :
    Gathers [f.id] p (Track.onFunction f cx p).2 := by
  cases hinfo : cx.scopes.function? f.id with
  | none =>
    rw [Track.onFunction_unknown hinfo]
    exact .refl _ p
  | some info =>
    rw [Track.onFunction_apply hinfo, Track.sumUp_apply]
    set q := (Track.startFunction f info cx p).2
    have hstart : Gathers [] p q := by
      have h := (moves_startFunction cx f info p).gathers
      exact ⟨h.facts, h.observed, h.possible, h.summaries⟩
    have hbody := (Track.moves_onStmts f.body.stmts (allAllowed_all cx.scopes _) q).gathers
    have h := hstart.trans hbody
    refine ⟨h.facts, h.observed, h.possible, fun id hid => ?_⟩
    refine (Std.TreeMap.getElem?_insert.trans (if_neg fun hc => ?_)).trans (h.summaries id nofun)
    exact hid (List.mem_singleton.mpr (Std.LawfulEqCmp.eq_of_compare hc).symm)

theorem gathers_functions (fs : List Func) (p : Progress) :
    Gathers (fs.map (·.id)) p (fs.forM Track.onFunction cx p).2 := by
  induction fs generalizing p with
  | nil => exact .refl _ p
  | cons f rest ih => exact (gathers_onFunction f p).trans (ih _)

/-- What holds of a function after its body was followed still holds when all functions were. -/
theorem after_functions (cx : Context) {fs : List Func} (hdistinct : (fs.map (·.id)).Nodup)
    {f : Func} (hf : f ∈ fs)
    (p : Progress) : ∃ q rest, f.id ∉ rest ∧
      Gathers rest (Track.onFunction f cx q).2 (fs.forM Track.onFunction cx p).2 := by
  obtain ⟨before, rest, rfl⟩ := List.append_of_mem hf
  refine ⟨(before.forM Track.onFunction cx p).2, rest.map (·.id), fun hmem => ?_, ?_⟩
  · rw [List.map_append, List.map_cons, List.nodup_append'] at hdistinct
    exact (List.nodup_cons.mp hdistinct.2.1).1 hmem
  · have happly : (before ++ f :: rest).forM Track.onFunction cx p =
        rest.forM Track.onFunction cx
          (Track.onFunction f cx (before.forM Track.onFunction cx p).2).2 := by
      change forM (before ++ f :: rest) Track.onFunction cx p = _
      rw [List.forM_append, List.forM_cons]
      rfl
    rw [happly]
    exact gathers_functions rest _

end

/-! ## The result of a run -/

theorem mem_nodes_of_functions {p : Program} {f : Func} (h : f ∈ p.functions) : .func f ∈ p.nodes := by
  obtain ⟨n, hn, hf⟩ := List.mem_filterMap.mp h
  cases n <;> cases hf
  exact hn

section

variable {p : Program} {f : Func} {constants : List String} {options : Options} {prev : Facts}
  {watch : Bool} {args : List Primitive}

/-- Where a function is declared, these names are declared nowhere, or are its own. -/
def Program.Undeclared (p : Program) (constants : List String) (f : Func) : Prop :=
  ∀ c ∈ constants, c ∉ f.ownNames → ∀ info v, (ScopeTree.ofProgram p).function? f.id = some info →
    (ScopeTree.ofProgram p).lookup info.scope c = some v →
    ((ScopeTree.ofProgram p).var v).kind = .implicit

/-- The names of a plain function mean its variables. -/
theorem exists_layout (hp : p.Regular) (hf : f ∈ p.functions) (hplain : f.hasPlainBody constants = true)
    (hglobal : AreGlobal constants) (hundeclared : p.Undeclared constants f) :
    ∃ info Δ, (ScopeTree.ofProgram p).HasFunction f info Δ ∧
      Layout.Fits (ScopeTree.ofProgram p) constants info.scope info.scope Δ := by
  obtain ⟨hok, hnodes⟩ := ScopeTree.knows_ofProgram hp
  have hvisited := ((hnodes _ (mem_nodes_of_functions hf)).visits f rfl).resolve_right (·.1)
  obtain ⟨info, Δ, -, hfunction⟩ := hvisited.hasFunction hok (bare_of_plain hplain)
  have hflat := Func.hasFlatBody_of_plain hplain
  refine ⟨info, Δ, hfunction, hfunction.fits hok hglobal hflat fun c hc hnone v hv => ?_⟩
  refine hundeclared c hc (fun hown => ?_) info v hfunction.function hv
  have hsome := has_ownNames hfunction hflat c (List.contains_iff_mem.mpr hown)
  rw [hnone] at hsome
  cases hsome

/-- The facts found explain the calls of plain functions. -/
theorem analyze_explains (hp : p.Regular) (hf : f ∈ p.functions)
    (hplain : f.hasPlainBody constants = true)
    (hglobal : AreGlobal constants) (hundeclared : p.Undeclared constants f)
    (hknows : Context.Knows { options, scopes := ScopeTree.ofProgram p, prev, watch } constants)
    (hargs : prev.ParamsHold f args) (n : Nat) :
    (∀ ev ∈ (f.exec n args).2.trace, Explains (analyze p options prev watch).nodeFacts ev) ∧
      ∀ x, (f.exec n args).1.result? = some (.returned x) →
        ∃ s, (analyze p options prev watch).facts.summaries[f.id]? = some s ∧
          s.returns.Holds (.primitive x) := by
  set cx : Context := { options, scopes := ScopeTree.ofProgram p, prev, watch }
  obtain ⟨info, Δ, hfunction, hfits⟩ : ∃ info Δ, cx.scopes.HasFunction f info Δ ∧
    Layout.Fits cx.scopes constants info.scope info.scope Δ :=
      exists_layout hp hf hplain hglobal hundeclared
  obtain ⟨q, rest, hrest, hgathers⟩ := after_functions cx hp.functions_nodup hf
    (Track.onProgram p cx { frame := { scope := ScopeTree.root } }).2
  obtain ⟨hexplains, hreturns⟩ := explains_onFunction hfunction hfits hplain hknows hargs n q
  rw [analyze_eq, Context.analysis_nodeFacts, Context.analysis_facts, Context.result, Track.onAll_apply]
  refine ⟨fun ev hev => (hexplains ev hev).grow hgathers.facts, fun x hx => ?_⟩
  obtain ⟨s, hs, hholds⟩ := hreturns x hx
  exact ⟨s, (hgathers.summaries f.id hrest).trans hs, hholds⟩

/-- The analysis is sound on plain functions. Whatever the program around it, the options and the
facts of the run before, in every call whose arguments these facts allow for, and for any number of
rounds that its loops may have: every expression that is evaluated has facts which hold its value,
an evaluation that the facts call pure changes no variable, and the summary of the function holds
the value that is returned. -/
theorem plain_call_explained (hp : p.Regular) (hf : f ∈ p.functions) (hplain : f.isPlain [] = true)
    (options : Options) (watch : Bool) (hargs : prev.ParamsHold f args) (n : Nat) :
    (∀ ev ∈ (f.exec n args).2.trace, Explains (analyze p options prev watch).nodeFacts ev) ∧
      ∀ x, (f.exec n args).1.result? = some (.returned x) →
        ∃ s, (analyze p options prev watch).facts.summaries[f.id]? = some s ∧
          s.returns.Holds (.primitive x) :=
  analyze_explains hp hf (Func.hasPlainBody_of_isPlain hplain) nofun nofun nofun hargs n

end

/-- `function untilFalse(b) { while (b) b = false; return b; }` -/
def untilFalse : Func :=
  ⟨10, [⟨1, "b"⟩], ⟨9, [
    .while 6 (.ident ⟨2, "b"⟩) (.expr 5 (.assign 4 .assign (.ident ⟨3, "b"⟩) (.bool 11 false))),
    .return 8 (some (.ident ⟨7, "b"⟩))]⟩⟩

/-- The declaration of `untilFalse`, and no more. -/
def untilFalseProgram : Program := ⟨14, [.function 13 ⟨12, "untilFalse"⟩ untilFalse]⟩

theorem untilFalse_explained :
    (∀ ev ∈ (untilFalse.exec 1 [.bool true]).2.trace,
      Explains (analyze untilFalseProgram {} {} false).nodeFacts ev) ∧
    ∃ s, (analyze untilFalseProgram {} {} false).facts.summaries[untilFalse.id]? = some s ∧
      s.returns.Holds (.primitive (.bool false)) := by
  have hregular : untilFalseProgram.Regular := by
    refine ⟨by decide, fun _ d hd => ?_⟩
    simp [Program.nodes, untilFalseProgram, untilFalse, stmtNodes, Stmt.nodes, Func.nodes, Block.nodes,
      Expr.nodes, exprNodes?] at hd
  have hmem : untilFalse ∈ untilFalseProgram.functions := List.mem_cons_self
  have hargs : Facts.ParamsHold {} untilFalse [.bool true] := fun i _ => Value.holds_unknown _
  have h := plain_call_explained hregular hmem rfl {} false hargs 1
  exact ⟨h.1, h.2 _ rfl⟩

end EsOptimizer
