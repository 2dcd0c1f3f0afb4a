import EsOptimizer.Proofs.Run.Basic

/-!
# Traces grow

A run only adds to its trace, so what holds of all evaluations of a run holds of those of every part
of it.
-/

namespace EsOptimizer

namespace Run

/-- A run only adds to its trace. -/
def Extends {α : Type} (x : Run α) : Prop := ∀ w, w.trace ⊆ (x w).2.trace

namespace Extends

variable {α β : Type} {x : Run α}

theorem pure (a : α) : Extends (Pure.pure a : Run α) := fun _ => List.Subset.refl _

theorem bind {f : α → Run β} (hx : Extends x) (hf : ∀ a, Extends (f a)) : Extends (x >>= f) :=
  fun w => List.Subset.trans (hx w) (hf _ _)

theorem ite {p : Prop} [Decidable p] {y : Run α} (hx : Extends x) (hy : Extends y) :
    Extends (if p then x else y) := by
  split
  · exact hx
  · exact hy

theorem discard (hx : Extends x) : Extends (discard x) := hx.bind fun _ => .pure _

theorem readName (name : String) : Extends (readName name) := fun _ => List.Subset.refl _

theorem assignName (name : String) (value : Primitive) : Extends (assignName name value) :=
  fun _ => List.Subset.refl _

theorem evaluated {step : Run Primitive} (h : Extends step) (node : NodeId) :
    Extends (evaluated node step) :=
  fun w => List.Subset.trans (h w) (List.subset_cons_self _ _)

theorem logical {left right : Run Primitive} (isOr : Bool) (hl : Extends left)
    (hr : Extends right) : Extends (logical isOr left right) :=
  hl.bind fun _ => .ite (.pure _) hr

theorem assigned {right : Run Primitive} (op : AssignOp) (name : String) (hr : Extends right) :
    Extends (assigned op name right) := by
  unfold Run.assigned
  split
  · exact hr
  · exact (readName name).bind fun _ => hr.bind fun _ => .pure _

theorem updateName (op : UpdateOp) (before : Bool) (name : String) :
    Extends (updateName op before name) := fun _ => List.Subset.refl _

theorem withVariable {step : Run α} (h : Extends step) (name : String) (value : Primitive) :
    Extends (withVariable name value step) := fun w => h { w with env := (name, value) :: w.env }

theorem rounds {labels : List String} {test : Run Bool} {body : Run Outcome} {update : Run Unit}
    (ht : Extends test) (hb : Extends body) (hu : Extends update) (n : Nat) :
    Extends (rounds labels test body update n) := by
  induction n with
  | zero => exact ht.bind fun _ => .ite (.pure _) (.pure _)
  | succ n ih =>
    refine ht.bind fun _ => .ite (hb.bind fun o => ?_) (.pure _)
    split
    · exact .pure _
    · exact hu.bind fun _ => ih

theorem roundsAfter {labels : List String} {test : Run Bool} {body : Run Outcome}
    (ht : Extends test) (hb : Extends body) (n : Nat) :
    Extends (roundsAfter labels test body n) := by
  refine hb.bind fun o => ?_
  split
  · exact .pure _
  · exact rounds ht hb (.pure _) n

theorem attempt {block : Run Outcome} {handler : Primitive → Run Outcome} {finalizer : Run Outcome}
    (hb : Extends block) (hh : ∀ value, Extends (handler value)) (hf : Extends finalizer) :
    Extends (attempt block handler finalizer) := by
  have hlast (o : Outcome) : Extends (do
      if o = .cutOff then return .cutOff else return o.finally (← finalizer) : Run Outcome) :=
    .ite (.pure _) (hf.bind fun _ => .pure _)
  refine hb.bind fun o => ?_
  cases o with
  | throw value => exact (hh value).bind hlast
  | _ => exact (Extends.pure _).bind hlast

end Extends

end Run

open Run

mutual

theorem Expr.extends_eval (e : Expr) : Extends e.eval := by
  unfold Expr.eval
  refine Extends.evaluated ?_ e.id
  cases e with
  | ident i => exact .readName i.name
  | unary id op arg => exact (Expr.extends_eval arg).bind fun _ => .pure _
  | update id op before arg =>
    cases arg with
    | ident i => exact .updateName op before i.name
    | _ => exact .pure _
  | binary id op left right =>
    have hl := Expr.extends_eval left
    have hr := Expr.extends_eval right
    cases op with
    | or => exact .logical true hl hr
    | and => exact .logical false hl hr
    | _ => exact hl.bind fun _ => hr.bind fun _ => .pure _
  | assign id op left right =>
    cases left with
    | ident i =>
      exact (Extends.assigned op i.name (Expr.extends_eval right)).bind fun _ =>
        (Extends.assignName _ _).bind fun _ => .pure _
    | _ => exact .pure _
  | cond id test yes no =>
    exact (Expr.extends_eval test).bind fun _ => .ite (Expr.extends_eval yes) (Expr.extends_eval no)
  | seq id exprs => exact (extends_evalAll exprs).bind fun _ => .pure _
  | _ => exact .pure _
termination_by structural e

theorem extends_evalAll (es : List Expr) : Extends (evalAll es) := by
  match es with
  | [] => exact .pure _
  | e :: rest =>
    exact (Expr.extends_eval e).bind fun _ => (extends_evalAll rest).bind fun _ => .pure _
termination_by structural es

end

theorem extends_eval? (e : Option Expr) : Extends (eval? e) := by
  cases e with
  | none => exact .pure _
  | some e => exact e.extends_eval.bind fun _ => .pure _

theorem extends_execDeclarators (ds : List Declarator) : Extends (execDeclarators ds) := by
  induction ds with
  | nil => exact .pure _
  | cons d rest ih =>
    obtain ⟨id, name, init⟩ := d
    refine (extends_eval? init).bind fun value => ?_
    cases value with
    | none => exact ih
    | some value => exact (Extends.assignName _ _).bind fun _ => ih

theorem extends_execHead? (head : Option ForHead) : Extends (execHead? head) := by
  cases head with
  | none => exact .pure _
  | some head =>
    cases head with
    | decl d => exact extends_execDeclarators d.decls
    | expr e => exact e.extends_eval.discard

theorem extends_testTruth (test : Option Expr) : Extends (testTruth test) :=
  (extends_eval? test).bind fun _ => .pure _

mutual

theorem Stmt.extends_exec (n : Nat) (s : Stmt) (labels : List String) :
    Extends (s.exec n labels) := by
  cases s with
  | block b => exact Block.extends_exec n b
  | expr id e => exact e.extends_eval.discard.bind fun _ => .pure _
  | var d => exact (extends_execDeclarators d.decls).bind fun _ => .pure _
  | «if» id test yes no =>
    exact test.extends_eval.bind fun _ => .ite (Stmt.extends_exec n yes []) (extends_exec? n no)
  | «while» id test body =>
    exact .rounds (extends_testTruth (some test)) (Stmt.extends_exec n body []) (.pure _) n
  | doWhile id body test =>
    exact .roundsAfter (extends_testTruth (some test)) (Stmt.extends_exec n body []) n
  | «for» id init test update body =>
    exact (extends_execHead? init).bind fun _ => .rounds (extends_testTruth test)
      (Stmt.extends_exec n body []) (extends_eval? update).discard n
  | labeled id label body => exact (Stmt.extends_exec n body _).bind fun _ => .pure _
  | «return» id arg => exact (extends_eval? arg).bind fun _ => .pure _
  | throw id arg => exact arg.extends_eval.bind fun _ => .pure _
  | «try» id block handler finalizer =>
    exact .attempt (Block.extends_exec n block) (extends_execHandler n handler)
      (extends_execBlock? n finalizer)
  | _ => exact .pure _
termination_by structural s

theorem extends_exec? (n : Nat) (s : Option Stmt) : Extends (exec? n s) := by
  match s with
  | none => exact .pure _
  | some s => exact Stmt.extends_exec n s []
termination_by structural s

theorem Block.extends_exec (n : Nat) (b : Block) : Extends (b.exec n) := by
  match b with
  | ⟨_, stmts⟩ => exact extends_execAll n stmts
termination_by structural b

theorem extends_execBlock? (n : Nat) (b : Option Block) : Extends (execBlock? n b) := by
  match b with
  | none => exact .pure _
  | some b => exact Block.extends_exec n b
termination_by structural b

theorem extends_execHandler (n : Nat) (c : Option CatchClause) (value : Primitive) :
    Extends (execHandler n c value) := by
  match c with
  | none => exact .pure _
  | some ⟨_, some param, body⟩ => exact .withVariable (Block.extends_exec n body) param.name value
  | some ⟨_, none, body⟩ => exact Block.extends_exec n body
termination_by structural c

theorem extends_execAll (n : Nat) (ss : List Stmt) : Extends (execAll n ss) := by
  match ss with
  | [] => exact .pure _
  | s :: rest =>
    refine (Stmt.extends_exec n s []).bind fun o => ?_
    split
    · exact extends_execAll n rest
    · exact .pure _
termination_by structural ss

end

end EsOptimizer
