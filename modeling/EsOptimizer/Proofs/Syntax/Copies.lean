import EsOptimizer.Proofs.Syntax.Ids
import EsOptimizer.Proofs.Syntax.Shape
import EsOptimizer.Syntax.Edit
import Mathlib.Data.List.Perm.Basic

/-!
# Copies of trees

A copy has the shape of the tree that it is a copy of, and its ids are the numbers handed out while
it was made, each at one node: none is left out and none is used twice. `Numbers` says so of a
computation that makes a tree.

A node has its id before its parts have theirs, but `ids` lists it behind them, so the ids of a copy
are a permutation of an interval. While a copy is made, the parts that there are already stand on
the left of what is still missing, and the id of the node on its right (`before` and `after`).
-/

namespace EsOptimizer

namespace Fresh

variable {α β : Type} {before after : List NodeId} {ids : α → List NodeId} {ids₂ : β → List NodeId}
variable {P : α → Prop} {Q : β → Prop}

/-- The result has the property `P`, and its ids are those given and all that were handed out
meanwhile. -/
def Numbers (before after : List NodeId) (ids : α → List NodeId) (P : α → Prop) (x : Fresh α) :
    Prop :=
  ∀ n, P (x n).1 ∧ ∃ k, (x n).2 = n + k ∧ (ids (x n).1).Perm (before ++ List.range' n k ++ after)

/-- The result has the shape of `a`, and its ids are all that were handed out meanwhile. -/
def Clones (ids : α → List NodeId) (shape : α → α) (a : α) (x : Fresh α) : Prop :=
  Numbers [] [] ids (fun c => shape c = shape a) x

namespace Numbers

theorem pure {a : α} (hP : P a) (h : ids a = before ++ after) :
    Numbers before after ids P (Pure.pure a : Fresh α) := by
  intro n
  refine ⟨hP, 0, rfl, ?_⟩
  rw [List.range'_zero, List.append_nil, ← h]
  exact List.Perm.refl _

/-- A tree with no id besides those of its parts. -/
theorem whole {a : α} (hP : P a) (h : ids a = before) :
    Numbers before [] ids P (Pure.pure a : Fresh α) :=
  pure hP (by rw [h, List.append_nil])

/-- The next part of a tree. -/
theorem part {x : Fresh α} {f : α → Fresh β} (hx : Numbers [] [] ids P x)
    (hf : ∀ a, P a → Numbers (before ++ ids a) after ids₂ Q (f a)) :
    Numbers before after ids₂ Q (x >>= f) := by
  intro n
  obtain ⟨hP, k, hk, hids⟩ := hx n
  obtain ⟨hQ, l, hl, hids₂⟩ := hf _ hP (x n).2
  rw [List.nil_append, List.append_nil] at hids
  refine ⟨hQ, k + l, hl.trans (by rw [hk, Nat.add_assoc]), hids₂.trans ?_⟩
  rw [hk, ← List.range'_append_1, ← List.append_assoc before]
  exact ((hids.append_left before).append_right _).append_right after

/-- A node, with an id of its own. -/
theorem node {f : NodeId → Fresh α} (hf : ∀ id, Numbers before (id :: after) ids P (f id)) :
    Numbers before after ids P (fresh >>= f) := by
  intro n
  obtain ⟨hP, k, hk, hids⟩ := hf n (n + 1)
  refine ⟨hP, k + 1, hk.trans (Nat.add_right_comm n 1 k), hids.trans ?_⟩
  rw [List.range'_succ, List.append_assoc, List.append_assoc]
  exact List.perm_middle.append_left before

end Numbers

/-- The ids of a copy are the interval of those handed out. -/
theorem Clones.interval {shape : α → α} {a : α} {x : Fresh α} (h : Clones ids shape a x)
    (n : NodeId) : shape (x n).1 = shape a ∧ (ids (x n).1).Nodup ∧
      ∀ id, id ∈ ids (x n).1 ↔ n ≤ id ∧ id < (x n).2 := by
  obtain ⟨hshape, k, hk, hids⟩ := h n
  rw [List.nil_append, List.append_nil] at hids
  refine ⟨hshape, hids.nodup_iff.mpr List.nodup_range', fun id => ?_⟩
  rw [hids.mem_iff, List.mem_range'_1, hk]

end Fresh

open Fresh

/-! ## The copies -/

theorem Ident.clones (i : Ident) : Clones (fun i => [i.id]) shape i i.renumber :=
  .node fun _ => .pure rfl rfl

theorem Ident.clones? (i : Option Ident) :
    Clones Ident.ids? (Option.map shape) i (Ident.renumber? i) := by
  cases i with
  | none => exact .whole rfl rfl
  | some i => exact .part i.clones fun c hc => .whole (congrArg some hc) rfl

theorem Ident.clonesAll (is : List Ident) :
    Clones (List.map Ident.id) (List.map shape) is (is.mapM Ident.renumber) := by
  induction is with
  | nil => exact .whole rfl rfl
  | cons i is ih =>
    rw [List.mapM_cons]
    exact .part i.clones fun c hc => .part ih fun cs hcs => .whole (congrArg₂ List.cons hc hcs) rfl

mutual

theorem Expr.clones (e : Expr) : Clones Expr.ids (Expr.shape false) e e.renumber := by
  cases e with
  | array _ elems =>
    exact .node fun _ => .part (clonesElems elems) fun _ h => .pure (congrArg (Expr.array 0) h) rfl
  | object _ props =>
    exact .node fun _ => .part (clonesProps props) fun _ h => .pure (congrArg (Expr.object 0) h) rfl
  | function _ name fn =>
    exact .node fun _ => .part (Ident.clones? name) fun _ h => .part fn.clones fun _ h' =>
      .pure (congrArg₂ (Expr.function 0) h h') rfl
  | unary _ op arg =>
    exact .node fun _ => .part arg.clones fun _ h => .pure (congrArg (Expr.unary 0 op) h) rfl
  | update _ op b arg =>
    exact .node fun _ => .part arg.clones fun _ h => .pure (congrArg (Expr.update 0 op b) h) rfl
  | binary _ op left right =>
    exact .node fun _ => .part left.clones fun _ h => .part right.clones fun _ h' =>
      .pure (congrArg₂ (Expr.binary 0 op) h h') rfl
  | assign _ op left right =>
    exact .node fun _ => .part left.clones fun _ h => .part right.clones fun _ h' =>
      .pure (congrArg₂ (Expr.assign 0 op) h h') rfl
  | member _ obj name =>
    exact .node fun _ => .part obj.clones fun _ h => .part name.clones fun _ h' =>
      .pure (congrArg₂ (Expr.member 0) h h') (by simp [Expr.ids])
  | index _ obj key =>
    exact .node fun _ => .part obj.clones fun _ h => .part key.clones fun _ h' =>
      .pure (congrArg₂ (Expr.index 0) h h') rfl
  | cond _ test yes no =>
    exact .node fun _ => .part test.clones fun _ h => .part yes.clones fun _ h' =>
      .part no.clones fun _ h'' => .pure (by simp [h, h', h'']) rfl
  | call _ callee args =>
    exact .node fun _ => .part callee.clones fun _ h => .part (clonesExprs args) fun _ h' =>
      .pure (congrArg₂ (Expr.call 0) h h') rfl
  | new _ callee args =>
    exact .node fun _ => .part callee.clones fun _ h => .part (clonesExprs args) fun _ h' =>
      .pure (congrArg₂ (Expr.new 0) h h') rfl
  | seq _ exprs =>
    exact .node fun _ => .part (clonesExprs exprs) fun _ h => .pure (congrArg (Expr.seq 0) h) rfl
  | ident name => exact .part name.clones fun _ h => .whole (congrArg Expr.ident h) rfl
  | _ => exact .node fun _ => .pure rfl rfl
termination_by structural e

theorem clonesElems (es : List (Option Expr)) :
    Clones elemIds (elemShapes false) es (renumberElems es) := by
  match es with
  | [] => exact .whole rfl rfl
  | none :: rest =>
    exact .part (clonesElems rest) fun _ h => .whole (congrArg (none :: ·) h) rfl
  | some e :: rest =>
    exact .part e.clones fun _ h => .part (clonesElems rest) fun _ h' =>
      .whole (congrArg₂ (some · :: ·) h h') rfl
termination_by structural es

theorem clonesExprs (es : List Expr) : Clones exprIds (exprShapes false) es (renumberExprs es) := by
  match es with
  | [] => exact .whole rfl rfl
  | e :: rest =>
    exact .part e.clones fun _ h => .part (clonesExprs rest) fun _ h' =>
      .whole (congrArg₂ List.cons h h') rfl
termination_by structural es

theorem clonesExpr? (e : Option Expr) :
    Clones exprIds? (exprShape? false) e (renumberExpr? e) := by
  match e with
  | none => exact .whole rfl rfl
  | some e => exact .part e.clones fun _ h => .whole (congrArg some h) rfl
termination_by structural e

theorem PropertyKey.clones (key : PropertyKey) :
    Clones PropertyKey.ids (PropertyKey.shape false) key key.renumber := by
  match key with
  | .ident name => exact .part name.clones fun _ h => .whole (congrArg PropertyKey.ident h) rfl
  | .string _ _ => exact .node fun _ => .pure rfl rfl
  | .number _ _ => exact .node fun _ => .pure rfl rfl
  | .computed e =>
    exact .part e.clones fun _ h => .whole (congrArg PropertyKey.computed h) rfl
termination_by structural key

theorem Property.clones (p : Property) :
    Clones Property.ids (Property.shape false) p p.renumber := by
  match p with
  | .value _ key value =>
    exact .node fun _ => .part key.clones fun _ h => .part value.clones fun _ h' =>
      .pure (congrArg₂ (Property.value 0) h h') rfl
  | .getter _ key fn =>
    exact .node fun _ => .part key.clones fun _ h => .part fn.clones fun _ h' =>
      .pure (congrArg₂ (Property.getter 0) h h') rfl
  | .setter _ key fn =>
    exact .node fun _ => .part key.clones fun _ h => .part fn.clones fun _ h' =>
      .pure (congrArg₂ (Property.setter 0) h h') rfl
termination_by structural p

theorem clonesProps (ps : List Property) :
    Clones propIds (propShapes false) ps (renumberProps ps) := by
  match ps with
  | [] => exact .whole rfl rfl
  | p :: rest =>
    exact .part p.clones fun _ h => .part (clonesProps rest) fun _ h' =>
      .whole (congrArg₂ List.cons h h') rfl
termination_by structural ps

theorem Func.clones (f : Func) : Clones Func.ids (Func.shape false) f f.renumber := by
  match f with
  | ⟨_, params, body⟩ =>
    exact .node fun _ => .part (Ident.clonesAll params) fun _ h => .part body.clones fun _ h' =>
      .pure (congrArg₂ (Func.mk 0) h h') rfl
termination_by structural f

theorem Block.clones (b : Block) : Clones Block.ids (Block.shape false) b b.renumber := by
  match b with
  | ⟨_, stmts⟩ =>
    exact .node fun _ => .part (clonesStmts stmts) fun _ h => .pure (congrArg (Block.mk 0) h) rfl
termination_by structural b

theorem clonesBlock? (b : Option Block) :
    Clones blockIds? (blockShape? false) b (renumberBlock? b) := by
  match b with
  | none => exact .whole rfl rfl
  | some b => exact .part b.clones fun _ h => .whole (congrArg some h) rfl
termination_by structural b

theorem Declarator.clones (d : Declarator) :
    Clones Declarator.ids (Declarator.shape false) d d.renumber := by
  match d with
  | ⟨_, name, init⟩ =>
    exact .node fun _ => .part name.clones fun _ h => .part (clonesExpr? init) fun _ h' =>
      .pure (congrArg₂ (Declarator.mk 0) h h') rfl
termination_by structural d

theorem clonesDecls (ds : List Declarator) :
    Clones declIds (declShapes false) ds (renumberDecls ds) := by
  match ds with
  | [] => exact .whole rfl rfl
  | d :: rest =>
    exact .part d.clones fun _ h => .part (clonesDecls rest) fun _ h' =>
      .whole (congrArg₂ List.cons h h') rfl
termination_by structural ds

theorem VarDecl.clones (d : VarDecl) : Clones VarDecl.ids (VarDecl.shape false) d d.renumber := by
  match d with
  | ⟨_, kind, decls⟩ =>
    exact .node fun _ => .part (clonesDecls decls) fun _ h =>
      .pure (congrArg (VarDecl.mk 0 kind) h) rfl
termination_by structural d

theorem ForHead.clones (h : ForHead) : Clones ForHead.ids (ForHead.shape false) h h.renumber := by
  match h with
  | .decl d => exact .part d.clones fun _ h => .whole (congrArg ForHead.decl h) rfl
  | .expr e => exact .part e.clones fun _ h => .whole (congrArg ForHead.expr h) rfl
termination_by structural h

theorem clonesHead? (h : Option ForHead) :
    Clones headIds? (headShape? false) h (renumberHead? h) := by
  match h with
  | none => exact .whole rfl rfl
  | some h => exact .part h.clones fun _ h => .whole (congrArg some h) rfl
termination_by structural h

theorem CatchClause.clones (c : CatchClause) :
    Clones CatchClause.ids (CatchClause.shape false) c c.renumber := by
  match c with
  | ⟨_, param, body⟩ =>
    exact .node fun _ => .part (Ident.clones? param) fun _ h => .part body.clones fun _ h' =>
      .pure (congrArg₂ (CatchClause.mk 0) h h') rfl
termination_by structural c

theorem clonesHandler? (c : Option CatchClause) :
    Clones handlerIds? (handlerShape? false) c (renumberHandler? c) := by
  match c with
  | none => exact .whole rfl rfl
  | some c => exact .part c.clones fun _ h => .whole (congrArg some h) rfl
termination_by structural c

theorem Stmt.clones (s : Stmt) : Clones Stmt.ids (Stmt.shape false) s s.renumber := by
  cases s with
  | block b => exact .part b.clones fun _ h => .whole (congrArg Stmt.block h) rfl
  | empty _ => exact .node fun _ => .pure rfl rfl
  | expr _ e => exact .node fun _ => .part e.clones fun _ h => .pure (congrArg (Stmt.expr 0) h) rfl
  | var d => exact .part d.clones fun _ h => .whole (congrArg Stmt.var h) rfl
  | function _ name fn =>
    exact .node fun _ => .part name.clones fun _ h => .part fn.clones fun _ h' =>
      .pure (congrArg₂ (Stmt.function 0) h h') rfl
  | «if» _ test yes no =>
    exact .node fun _ => .part test.clones fun _ h => .part yes.clones fun _ h' =>
      .part (clonesStmt? no) fun _ h'' => .pure (by simp [h, h', h'']) rfl
  | «for» _ init test update body =>
    exact .node fun _ => .part (clonesHead? init) fun _ h => .part (clonesExpr? test) fun _ h' =>
      .part (clonesExpr? update) fun _ h'' => .part body.clones fun _ h''' =>
        .pure (by simp [h, h', h'', h''']) rfl
  | forIn _ head obj body =>
    exact .node fun _ => .part head.clones fun _ h => .part obj.clones fun _ h' =>
      .part body.clones fun _ h'' => .pure (by simp [h, h', h'']) rfl
  | «while» _ test body =>
    exact .node fun _ => .part test.clones fun _ h => .part body.clones fun _ h' =>
      .pure (congrArg₂ (Stmt.«while» 0) h h') rfl
  | doWhile _ body test =>
    exact .node fun _ => .part body.clones fun _ h => .part test.clones fun _ h' =>
      .pure (congrArg₂ (Stmt.doWhile 0) h h') rfl
  | «return» _ arg =>
    exact .node fun _ => .part (clonesExpr? arg) fun _ h => .pure (congrArg (Stmt.«return» 0) h) rfl
  | «break» _ label =>
    exact .node fun _ => .part (Ident.clones? label) fun _ h =>
      .pure (congrArg (Stmt.«break» 0) h) rfl
  | «continue» _ label =>
    exact .node fun _ => .part (Ident.clones? label) fun _ h =>
      .pure (congrArg (Stmt.«continue» 0) h) rfl
  | labeled _ label body =>
    exact .node fun _ => .part label.clones fun _ h => .part body.clones fun _ h' =>
      .pure (congrArg₂ (Stmt.labeled 0) h h') rfl
  | throw _ arg =>
    exact .node fun _ => .part arg.clones fun _ h => .pure (congrArg (Stmt.throw 0) h) rfl
  | «with» _ obj body =>
    exact .node fun _ => .part obj.clones fun _ h => .part body.clones fun _ h' =>
      .pure (congrArg₂ (Stmt.«with» 0) h h') rfl
  | «try» _ block handler finalizer =>
    exact .node fun _ => .part block.clones fun _ h => .part (clonesHandler? handler) fun _ h' =>
      .part (clonesBlock? finalizer) fun _ h'' => .pure (by simp [h, h', h'']) rfl
termination_by structural s

theorem clonesStmt? (s : Option Stmt) :
    Clones stmtIds? (stmtShape? false) s (renumberStmt? s) := by
  match s with
  | none => exact .whole rfl rfl
  | some s => exact .part s.clones fun _ h => .whole (congrArg some h) rfl
termination_by structural s

theorem clonesStmts (ss : List Stmt) : Clones stmtIds (stmtShapes false) ss (renumberStmts ss) := by
  match ss with
  | [] => exact .whole rfl rfl
  | s :: rest =>
    exact .part s.clones fun _ h => .part (clonesStmts rest) fun _ h' =>
      .whole (congrArg₂ List.cons h h') rfl
termination_by structural ss

end

namespace Edit

/-- `x` makes a tree of the shape of `a`. Its ids differ from each other, and they are those from
the next id before it up to the next id behind it. Nothing else of the state changes. -/
def ClonesOnce {α : Type} (ids : α → List NodeId) (shape : α → α) (a : α) (x : Edit α) : Prop :=
  ∀ s, shape (x s).1 = shape a ∧ (ids (x s).1).Nodup ∧
    (∀ id, id ∈ ids (x s).1 ↔ s.nextId ≤ id ∧ id < (x s).2.nextId) ∧
    (x s).2 = { s with nextId := (x s).2.nextId }

theorem ClonesOnce.ofFresh {α : Type} {ids : α → List NodeId} {shape : α → α} {a : α} {x : Fresh α}
    (h : Clones ids shape a x) : ClonesOnce ids shape a (Edit.ofFresh x) := by
  intro s
  obtain ⟨hshape, hnodup, hids⟩ := h.interval s.nextId
  exact ⟨hshape, hnodup, hids, rfl⟩

/-- A copy gets every id once, whatever it is a copy of. What is copied is a value, and no copy
changes it. -/
theorem clonesOnce_renumber :
    (∀ ss : List Stmt, ClonesOnce stmtIds (stmtShapes false) ss (.ofFresh (renumberStmts ss))) ∧
    (∀ s : Stmt, ClonesOnce Stmt.ids (Stmt.shape false) s (.ofFresh s.renumber)) ∧
    (∀ e : Expr, ClonesOnce Expr.ids (Expr.shape false) e (.ofFresh e.renumber)) ∧
    (∀ b : Block, ClonesOnce Block.ids (Block.shape false) b (.ofFresh b.renumber)) ∧
    ∀ f : Func, ClonesOnce Func.ids (Func.shape false) f (.ofFresh f.renumber) :=
  ⟨fun ss => .ofFresh (clonesStmts ss), fun s => .ofFresh s.clones, fun e => .ofFresh e.clones,
    fun b => .ofFresh b.clones, fun f => .ofFresh f.clones⟩

end Edit

end EsOptimizer
