import EsOptimizer.Proofs.Simulation.Call
import EsOptimizer.Proofs.Syntax.Functions

/-!
# What no facts are recorded of

Facts are recorded of what a node evaluates. What a node assigns to is not evaluated, and no other
node evaluates it; so where ids are not shared, an analysis has nothing to say about it.
-/

namespace EsOptimizer

/-- Facts are recorded only of the nodes `ids`. -/
def Bounds.recording (ids : NodeId → Prop) : Bounds := ⟨ids, fun _ => True, True⟩

section

variable {ids : NodeId → Prop}

theorem allAllowed_recording (scopes : ScopeTree) {ns : List Node}
    (h : ∀ n ∈ ns, ∀ e ∈ n.operands, ids e.id) : AllAllowed scopes (.recording ids) ns :=
  fun n hn => ⟨h n hn, fun _ _ _ _ => trivial,
    fun _ _ _ _ => ⟨fun _ _ _ => trivial, fun _ _ => trivial⟩, fun _ => trivial⟩

variable {cx : Context} {id : NodeId}

theorem unrecorded_onFunction {f : Func} (h : ∀ n ∈ f.nodes true, ∀ e ∈ n.operands, ids e.id)
    (hid : ¬ids id) (p : Progress) :
    (Track.onFunction f cx p).2.nodeFacts[id]? = p.nodeFacts[id]? := by
  cases hinfo : cx.scopes.function? f.id with
  | none =>
    rw [Track.onFunction_unknown hinfo]
  | some info =>
    rw [Track.onFunction_apply hinfo, Track.sumUp_apply]
    have hbody : ∀ n ∈ stmtNodes false f.body.stmts, ∀ e ∈ n.operands, ids e.id := by
      obtain ⟨fid, params, ⟨bid, stmts⟩⟩ := f
      intro n hn
      refine h n (List.mem_cons_of_mem _ (List.mem_append_right _ ?_))
      exact (stmtNodes_sublist stmts).subset hn
    have hmoves := Track.moves_onStmts f.body.stmts (allAllowed_recording cx.scopes hbody)
    refine ((hmoves _).unrecorded id hid).trans ?_
    exact (moves_startFunction cx f info p).unrecorded id not_false

theorem unrecorded_functions {fs : List Func}
    (h : ∀ f ∈ fs, ∀ n ∈ f.nodes true, ∀ e ∈ n.operands, ids e.id) (hid : ¬ids id) (p : Progress) :
    (fs.forM Track.onFunction cx p).2.nodeFacts[id]? = p.nodeFacts[id]? := by
  induction fs generalizing p with
  | nil => rfl
  | cons f rest ih =>
    obtain ⟨hf, hrest⟩ := List.forall_mem_cons.mp h
    exact (ih hrest _).trans (unrecorded_onFunction hf hid p)

end

/-- There are no facts of a node that is not among those evaluated. -/
theorem factsOf_analyze_eq_none {p : Program} (ids : NodeId → Prop)
    (h : ∀ n ∈ p.nodes, ∀ e ∈ n.operands, ids e.id) {id : NodeId} (hid : ¬ids id) (options : Options)
    (prev : Facts) (watch : Bool) : (analyze p options prev watch).factsOf id = none := by
  let cx : Context := { options, scopes := ScopeTree.ofProgram p, prev, watch }
  rw [analyze_eq, Analysis.factsOf, Context.analysis_nodeFacts, Context.result, Track.onAll_apply,
    unrecorded_functions (fun f hf n hn => h n (p.nodes_of_function hf hn)) hid,
    Track.onProgram_apply]
  have henter : Track.Moves cx (.recording ids) (Track.enterScope ScopeTree.root) :=
    Track.moves_enterScope ⟨fun _ _ _ => trivial, fun _ _ => trivial⟩
  have hbody : Track.Moves cx (.recording ids) (Track.onStmts p.body) :=
    Track.moves_onStmts p.body (allAllowed_recording cx.scopes fun n hn =>
      h n ((stmtNodes_sublist p.body).subset hn))
  rw [(hbody _).unrecorded id hid, (henter _).unrecorded id hid]
  exact Std.TreeMap.getElem?_emptyc

/-- There are no facts of what is assigned to. -/
theorem factsOf_assigned {p : Program} (hp : p.ids.Nodup) {n : Node} (hn : n ∈ p.nodes)
    {target : Expr} (htarget : n.assigned? = some target) (options : Options) (prev : Facts)
    (watch : Bool) : (analyze p options prev watch).factsOf target.id = none :=
  factsOf_analyze_eq_none (· ≠ target.id)
    (fun _ hm _ he => p.assigned_ne_operand hp hn hm htarget he) (fun hne => hne rfl) options prev watch

end EsOptimizer
