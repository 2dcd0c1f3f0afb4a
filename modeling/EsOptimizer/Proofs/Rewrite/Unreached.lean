import EsOptimizer.Proofs.Analysis.Unrecorded
import EsOptimizer.Proofs.Rewrite.SimplifyBlocks
import EsOptimizer.Proofs.Simulation.Program

/-!
# Code that is not reached

There are two views of code that control never reaches. `Stmt.isAbrupt` reads off the tree which
statements leave their list on every path, and `SimplifyBlocks.cut` drops what stands behind them.
The analysis follows the statements, and knows of its state whether it is dead. The first is the
narrower one: a statement that leaves its list leaves the state dead (`stops_onStmt`), whatever its
tests come to. In a dead state no statement is followed, so what is dropped has been of no account
before.
-/

namespace EsOptimizer

namespace Track

section

variable {α β : Type} {cx : Context}

/-! ## Ends of control -/

/-- Wherever a step starts, control has ended behind it. -/
def Stops (cx : Context) (x : Track α) : Prop := ∀ p, (x cx p).2.state.isDead = true

namespace Stops

theorem bind {x : Track α} {f : α → Track β} (hf : ∀ a, Stops cx (f a)) : Stops cx (x >>= f) :=
  fun _ => hf _ _

/-- No step goes back to where control has not ended. -/
theorem andThen {x : Track α} {f : α → Track β} (hx : Stops cx x) (hf : ∀ a, Moves cx .all (f a)) :
    Stops cx (x >>= f) :=
  fun p => (hf _ _).dead (hx p)

theorem endControl : Stops cx Track.endControl := fun _ => rfl

theorem returnValue (value : Value) : Stops cx (Track.returnValue value) :=
  bind fun _ => bind fun _ => bind fun _ => bind fun _ => endControl

theorem throwValue (value : Value) : Stops cx (Track.throwValue value) :=
  bind fun _ => bind fun _ => endControl

/-- A state that is dead stays so, and in another one the step is taken. -/
theorem followed (id : NodeId) {step : Track Unit} (h : Stops cx step) :
    Stops cx (Track.followed id step) := by
  intro p
  change ((if (!p.state.isDead) = true then _ else _ : Track Unit) cx p).2.state.isDead = true
  cases hp : p.state.isDead with
  | true => exact hp
  | false => exact h.andThen (fun _ => moves_notify .stmt id) p

/-- The state around a block in which control ends is dead, as the block certainly ran. -/
theorem inScope (id : NodeId) {body : Track Unit} (h : Stops cx body) :
    Stops cx (Track.inScope id body) := by
  intro p
  rw [inScope_eq_inner]
  have hinner : Stops cx (inner cx.scopes id body) := by
    unfold inner
    split
    · exact bind fun _ => h
    · exact h
  obtain ⟨-, -, hdead, -⟩ := p.state.mergeBack_rest cx.scopes
    (inner cx.scopes id body cx p.child).2.state.top (cx.scopes.scopeOf id)
  refine hdead.trans ?_
  rw [show (inner cx.scopes id body cx p.child).2.state.top.dead = true from hinner _, Bool.or_true]

/-- Of two branches in which control ends, one runs. If it is not known which, both layers are
dead. -/
theorem branch {test : Track Tracked} {yes no : Track Unit} (hyes : Stops cx yes)
    (hno : Stops cx no) : Stops cx (Track.branch test yes (some no)) := by
  refine bind fun t => ?_
  split
  · exact hyes
  · exact hno
  · intro p
    let a := (yes cx p.child).2
    let q : Progress := { a with state := p.state }
    let d := (no cx q.child).2
    let r : Progress := { d with state := q.state }
    obtain ⟨-, hdead⟩ := r.state.mergeOr_merged cx.scopes a.state.top d.state.top r.escaped
    refine hdead.trans ?_
    rw [show a.state.top.dead = true from hyes _, show d.state.top.dead = true from hno _,
      Bool.and_true, Bool.or_true]

end Stops

/-! ## Dead states -/

theorem followed_of_dead {id : NodeId} {step : Track Unit} {p : Progress}
    (h : p.state.isDead = true) : followed id step cx p = ((), p) := by
  change (if (!p.state.isDead) = true then _ else _ : Track Unit) cx p = _
  rw [h]
  rfl

theorem onStmt_of_dead (s : Stmt) {p : Progress} (h : p.state.isDead = true) :
    onStmt s cx p = ((), p) := by
  unfold onStmt
  exact followed_of_dead h

theorem onStmts_of_dead (ss : List Stmt) {p : Progress} (h : p.state.isDead = true) :
    onStmts ss cx p = ((), p) := by
  induction ss with
  | nil => rfl
  | cons s rest ih => rw [onStmts, bind_apply, onStmt_of_dead s h, ih]

theorem onStmts_append (ss rest : List Stmt) :
    onStmts (ss ++ rest) cx = (onStmts ss >>= fun _ => onStmts rest : Track Unit) cx := by
  induction ss with
  | nil => rfl
  | cons s ss ih =>
    funext p
    rw [List.cons_append, onStmts, bind_apply, ih, onStmts]
    rfl

/-- What stands behind the end of control does not matter. -/
theorem onStmts_append_of_stops {ss : List Stmt} (h : Stops cx (onStmts ss)) (rest : List Stmt) :
    onStmts (ss ++ rest) cx = onStmts ss cx := by
  funext p
  rw [onStmts_append, bind_apply, onStmts_of_dead rest (h p)]
  rfl

/-! ## Abrupt statements -/

mutual

/-- Behind a statement that leaves its list on every path, the state is dead. -/
theorem stops_onStmt (s : Stmt) (h : s.isAbrupt = true) : Stops cx (onStmt s) := by
  unfold onStmt
  refine .followed _ ?_
  cases s with
  | «return» _ _ => exact .bind fun _ => .returnValue _
  | throw _ _ => exact .bind fun _ => .throwValue _
  | «break» _ _ | «continue» _ _ => exact .endControl
  | block b =>
    obtain ⟨id, ss⟩ := b
    exact .inScope id (stops_onStmts ss h)
  | «if» _ test yes no =>
    cases no with
    | none => cases h
    | some no =>
      obtain ⟨hyes, hno⟩ := Bool.and_eq_true_iff.mp h
      exact .branch (stops_onStmt yes hyes) (stops_onStmt no hno)
  | _ => cases h
termination_by structural s

theorem stops_onStmts (ss : List Stmt) (h : anyAbrupt ss = true) : Stops cx (onStmts ss) := by
  match ss with
  | [] => cases h
  | s :: rest =>
    rw [onStmts]
    rcases Bool.or_eq_true_iff.mp h with hs | hrest
    · exact (stops_onStmt s hs).andThen fun _ => moves_onStmts rest (allAllowed_all cx.scopes _)
    · exact .bind fun _ => stops_onStmts rest hrest
termination_by structural ss

end

/-- Evaluating an expression neither ends control nor goes back. -/
theorem isDead_onExpr (e : Expr) (p : Progress) :
    (onExpr e cx p).2.state.isDead = p.state.isDead := by
  have hnodes : AllAllowed cx.scopes .evaluating (e.nodes false) := by
    have hends : ∀ n ∈ e.nodes false, n.endsControl = false :=
      e.forall_nodes (fun _ => rfl) (fun _ => rfl) fun _ => rfl
    intro n hn
    refine ⟨fun _ _ => trivial, fun _ _ _ _ => trivial,
      fun _ _ _ _ => ⟨fun _ _ _ => trivial, fun _ _ => trivial⟩, fun hn' => ?_⟩
    rw [hends n hn] at hn'
    cases hn'
  exact (moves_onExpr e trivial hnodes p).alive id

end

end Track

namespace SimplifyBlocks

open Track

section

variable {cx : Context} {ss : List Stmt}

/-! ## Lists that are cut -/

/-- Anything may stand behind the cut of a list, if something does. -/
theorem onStmts_cut_append (ss rest : List Stmt) (h : (cut ss).2 = [] → rest = []) :
    onStmts ((cut ss).1 ++ rest) cx = onStmts ss cx := by
  have hss := cut_append ss
  by_cases hnil : (cut ss).2 = []
  · rw [hnil, List.append_nil] at hss
    rw [h hnil, List.append_nil, hss]
  · have hstops : Stops cx (onStmts (cut ss).1) := stops_onStmts _ (anyAbrupt_cut hnil)
    rw [onStmts_append_of_stops hstops]
    conv_rhs => rw [← hss]
    exact (onStmts_append_of_stops hstops _).symm

/-- To follow a list is to follow what is reached of it. -/
theorem onStmts_cut (ss : List Stmt) : onStmts (cut ss).1 cx = onStmts ss cx := by
  rw [← onStmts_cut_append ss [] fun _ => rfl, List.append_nil]

theorem onStmts_dropUnreached (ss : List Stmt) (e : EditState) :
    onStmts (dropUnreached ss e).1 cx = onStmts ss cx := by
  unfold dropUnreached
  dsimp only
  split
  · rfl
  · rename_i hdrop
    refine onStmts_cut_append ss _ fun hnil => absurd ?_ hdrop
    rw [hnil]
    rfl

/-- Following a list records no facts of a node that is not part of it. -/
theorem unrecorded_onStmts {id : NodeId} (h : id ∉ stmtIds ss) (p : Progress) :
    (onStmts ss cx p).2.nodeFacts[id]? = p.nodeFacts[id]? := by
  have hids : AllAllowed cx.scopes (.recording (· ∈ stmtIds ss)) (stmtNodes false ss) :=
    allAllowed_recording cx.scopes fun n hn e he =>
      operand_id_mem ((stmtNodes_sublist ss).subset hn) he
  exact (moves_onStmts ss hids p).unrecorded id h

end

/-- The tree and the flow of control tell the same of what is not reached. A statement that leaves
its list on every path leaves the state dead, an expression does not change whether it is, and in a
dead state no statement does anything. So nothing is done for what stands behind the cut of a list,
no node of it gets facts, and the analysis goes the same way when it is dropped. -/
theorem unreached_unfollowed (cx : Context) (p : Progress) :
    (∀ s : Stmt, s.isAbrupt = true → (onStmt s cx p).2.state.isDead = true) ∧
    (∀ e : Expr, (onExpr e cx p).2.state.isDead = p.state.isDead) ∧
    (p.state.isDead = true → ∀ s : Stmt, onStmt s cx p = ((), p)) ∧
    ∀ (ss : List Stmt) (e : EditState),
      let q := (onStmts (cut ss).1 cx p).2
      (cut ss).1 ++ (cut ss).2 = ss ∧ onStmts (cut ss).2 cx q = ((), q) ∧
      (onStmts ss cx p).2 = q ∧ (onStmts (dropUnreached ss e).1 cx p).2 = q ∧
      ∀ id ∈ stmtIds (cut ss).2, id ∉ stmtIds (cut ss).1 → q.nodeFacts[id]? = p.nodeFacts[id]? := by
  refine ⟨fun s hs => stops_onStmt s hs p, fun e => isDead_onExpr e p,
    fun hp s => onStmt_of_dead s hp, fun ss e => ?_⟩
  refine ⟨cut_append ss, ?_, by rw [onStmts_cut], by rw [onStmts_dropUnreached, onStmts_cut], ?_⟩
  · by_cases hnil : (cut ss).2 = []
    · rw [hnil]
      rfl
    · exact onStmts_of_dead _ (stops_onStmts _ (anyAbrupt_cut hnil) p)
  · exact fun id _ hid => unrecorded_onStmts hid p

/-- `if (a) return; else { break; }` leaves its list, and behind it nothing is recorded of `f`. -/
theorem unreached_behind_choice :
    let cx : Context := { options := {}, scopes := ScopeTree.ofProgram ⟨0, []⟩, prev := {} }
    let p : Progress := { frame := { scope := ScopeTree.root } }
    let s : Stmt := .if 1 (.ident ⟨2, "a"⟩) (.return 3 none) (some (.block ⟨4, [.break 5 none]⟩))
    let ss : List Stmt := [s, .expr 6 (.ident ⟨7, "f"⟩)]
    (onStmt s cx p).2.state.isDead = true ∧ (onStmts (cut ss).1 cx p).2.nodeFacts[7]? = none := by
  intro cx p s ss
  obtain ⟨hstops, -, -, hlists⟩ := unreached_unfollowed cx p
  obtain ⟨-, -, -, -, hfacts⟩ := hlists ss { nextId := 8 }
  exact ⟨hstops s rfl, hfacts 7 (by decide) (by decide)⟩

end SimplifyBlocks

end EsOptimizer
