import EsOptimizer.Proofs.Rewrite.Matches
import EsOptimizer.Proofs.Syntax.Functions

/-!
# Code that stands for other code

`Stands` says that code may take the place of other code: it runs as that does, and it declares the
same names. Of an expression more is needed, since decisions are made by the facts under its id: the
facts recorded under the new id must describe what the old expression does.

`SameShape` relates a statement or expression to the same one with other parts. If the parts stand
for the parts, the whole stands for the whole.
-/

namespace EsOptimizer

open Run

/-! ## Expressions -/

/-- An expression may take the place of `e`. -/
structure Expr.Stands (b : Basis) (inner : List String) (e e' : Expr) : Prop where
  eval : b.Matches inner Primitive.SameValue e.eval e'.eval
  /-- What is recorded under its id describes the evaluations of `e`. -/
  known : ∀ w, b.Explained (e.eval w).2 → ∀ f, b.facts[e'.id]? = some f →
    f.value.Holds (.primitive (e.eval w).1) ∧ (f.pure = true → (e.eval w).2.env = w.env)

section

variable {b : Basis} {inner : List String}

/-- The last evaluation of a run of an expression is its own. -/
theorem Expr.explained_self {e : Expr} {w : World} (h : b.Explained (e.eval w).2) :
    Explains b.facts ⟨e.id, w.env, (e.eval w).1, (e.eval w).2.env⟩ := by
  unfold Expr.eval at h ⊢
  exact h _ List.mem_cons_self

namespace Expr.Stands

variable {e e' : Expr}

/-- An expression with the id of the one it stands for. -/
theorem of_id (h : b.Matches inner Primitive.SameValue e.eval e'.eval) (hid : e'.id = e.id) :
    e.Stands b inner e' where
  eval := h
  known w hexplained f hf := by
    obtain ⟨g, hg, hholds, hpure⟩ := Expr.explained_self hexplained
    rw [hid, hg] at hf
    cases hf
    exact ⟨hholds, hpure⟩

/-- Nothing is recorded of a new expression. -/
theorem of_new (h : b.Matches inner Primitive.SameValue e.eval e'.eval) (hid : b.nextId ≤ e'.id) :
    e.Stands b inner e' where
  eval := h
  known w _ f hf := by
    rw [b.unrecorded _ hid] at hf
    cases hf

end Expr.Stands

/-- The same expression with other parts. What is assigned to is a name, which stays. -/
inductive Expr.SameShape (R : Expr → Expr → Prop) : Expr → Expr → Prop where
  | ident (i : Ident) : SameShape R (.ident i) (.ident i)
  | literal {e : Expr} (h : e.isLiteral = true) : SameShape R e e
  | unary (id : NodeId) (op : UnaryOp) {arg arg' : Expr} (h : R arg arg') :
    SameShape R (.unary id op arg) (.unary id op arg')
  | update (id : NodeId) (op : UpdateOp) (before : Bool) (i : Ident) :
    SameShape R (.update id op before (.ident i)) (.update id op before (.ident i))
  | binary (id : NodeId) (op : BinaryOp) {left left' right right' : Expr} (hl : R left left')
    (hr : R right right') : SameShape R (.binary id op left right) (.binary id op left' right')
  | assign (id : NodeId) (op : AssignOp) (i : Ident) {right right' : Expr} (h : R right right') :
    SameShape R (.assign id op (.ident i) right) (.assign id op (.ident i) right')
  | cond (id : NodeId) {test test' yes yes' no no' : Expr} (ht : R test test') (hy : R yes yes')
    (hn : R no no') : SameShape R (.cond id test yes no) (.cond id test' yes' no')
  | seq (id : NodeId) {es es' : List Expr} (h : List.Forall₂ R es es') :
    SameShape R (.seq id es) (.seq id es')

theorem Expr.SameShape.id_eq {R : Expr → Expr → Prop} {e e' : Expr} (h : e.SameShape R e') :
    e'.id = e.id := by
  cases h <;> rfl

theorem matches_evalAll {es es' : List Expr} (h : List.Forall₂ (Expr.Stands b inner) es es') :
    b.Matches inner (List.Forall₂ Primitive.SameValue) (evalAll es) (evalAll es') := by
  induction h with
  | nil => exact .pure .nil
  | cons he _ ih =>
    exact he.eval.bind (fun _ => (extends_evalAll _).bind fun _ => .pure _) fun p q hpq =>
      ih.map fun _ _ h => .cons hpq h

theorem getLastD_sameValue {ps qs : List Primitive} (h : List.Forall₂ Primitive.SameValue ps qs) :
    (ps.getLastD .undefined).SameValue (qs.getLastD .undefined) := by
  induction h with
  | nil => exact BEq.rfl
  | cons hpq hrest ih =>
    cases hrest with
    | nil => exact hpq
    | cons _ _ => exact ih

/-- Decisions that two values lead to in the same way. -/
theorem Basis.Matches.branch {α β : Type} {R : α → β → Prop} {x x' : Run Primitive} {y z : Run α}
    {y' z' : Run β}
    (hx : b.Matches inner Primitive.SameValue x x') (hy : b.Matches inner R y y')
    (hz : b.Matches inner R z z') (hyes : Extends y) (hno : Extends z) :
    b.Matches inner R (do if (← x).truthy then y else z) (do if (← x').truthy then y' else z') :=
  hx.bind (fun _ => .ite hyes hno) fun _ _ hpq => .ite (by rw [Primitive.truthy_congr hpq]) hy hz

theorem Expr.SameShape.matches {e e' : Expr} (h : e.SameShape (Expr.Stands b inner) e') :
    b.Matches inner Primitive.SameValue e.eval e'.eval := by
  unfold Expr.eval
  refine Basis.Matches.evaluated ?_ _ _
  cases h with
  | ident i => exact Basis.matches_readName i.name
  | literal h =>
    cases e with
    | string | bool | null | number | regex => exact .pure BEq.rfl
    | _ => cases h
  | unary id op h => exact h.eval.map fun _ _ => Basis.unary_sameValue
  | update id op before i => exact Basis.matches_updateName op before i.name
  | binary id op hl hr =>
    cases op with
    | or => exact .logical true hl.eval hr.eval (Expr.extends_eval _)
    | and => exact .logical false hl.eval hr.eval (Expr.extends_eval _)
    | _ =>
      exact hl.eval.bind (fun _ => (Expr.extends_eval _).bind fun _ => .pure _) fun _ _ hpq =>
        hr.eval.map fun _ _ => Basis.binary_sameValue hpq
  | assign id op i h =>
    exact (h.eval.assigned op i.name (Expr.extends_eval _)).bind
      (fun _ => (Extends.assignName _ _).bind fun _ => .pure _) fun _ _ hpq =>
        (Basis.matches_assignName i.name hpq).bind (fun _ => .pure _) fun _ _ _ => .pure hpq
  | cond id ht hy hn =>
    exact ht.eval.branch hy.eval hn.eval (Expr.extends_eval _) (Expr.extends_eval _)
  | seq id h => exact (matches_evalAll h).map fun _ _ => getLastD_sameValue

theorem Expr.SameShape.stands {e e' : Expr} (h : e.SameShape (Expr.Stands b inner) e') :
    e.Stands b inner e' :=
  .of_id h.matches h.id_eq

end

/-! ## Declared names -/

/-- A name is declared with `var` by one of these nodes. -/
def Declares (ns : List Node) (x : String) : Prop := ∃ n ∈ ns, ∃ i ∈ n.varNames, i.name = x

attribute [local simp] Node.varNames

section

variable {n : Node} {ns ms : List Node} {x : String}

@[simp] theorem declares_nil : ¬Declares [] x := nofun

@[simp] theorem declares_cons :
    Declares (n :: ns) x ↔ (∃ i ∈ n.varNames, i.name = x) ∨ Declares ns x := by
  simp [Declares]

@[simp] theorem declares_append : Declares (ns ++ ms) x ↔ Declares ns x ∨ Declares ms x := by
  simp [Declares, or_and_right, exists_or]

theorem declares_iff : Declares ns x ↔ x ∈ (ns.flatMap Node.varNames).map (·.name) := by
  simp only [Declares, List.mem_map, List.mem_flatMap]
  constructor
  · rintro ⟨n, hn, i, hi, rfl⟩
    exact ⟨i, ⟨n, hn, hi⟩, rfl⟩
  · rintro ⟨i, ⟨n, hn, hi⟩, rfl⟩
    exact ⟨n, hn, i, hi, rfl⟩

@[simp] theorem declares_name? (name : Option Ident) : ¬Declares (Node.name? name) x := by
  cases name <;> simp [Node.name?, Node.varNames]

@[simp] theorem Func.declares_nodes (f : Func) : ¬Declares (f.nodes false) x := by
  obtain ⟨id, params, body⟩ := f
  simp [Func.nodes, Node.varNames]

/-- Expressions declare nothing. -/
@[simp] theorem Expr.declares_nodes (e : Expr) : ¬Declares (e.nodes false) x := by
  rintro ⟨n, hn, i, hi, -⟩
  have hnone : n.varNames = [] :=
    e.forall_nodes (P := (·.varNames = [])) (fun _ => rfl) (fun _ => rfl) (fun _ => rfl) n hn
  rw [hnone] at hi
  cases hi

@[simp] theorem declares_exprNodes? (e : Option Expr) : ¬Declares (exprNodes? false e) x := by
  cases e <;> simp [exprNodes?]

@[simp] theorem declares_declNodes (ds : List Declarator) : ¬Declares (declNodes false ds) x := by
  induction ds with
  | nil => simp [declNodes]
  | cons d rest ih =>
    obtain ⟨id, name, init⟩ := d
    simp [declNodes, Declarator.nodes, Node.varNames, ih]

theorem declares_stmtNodes {ss : List Stmt} :
    Declares (stmtNodes false ss) x ↔ ∃ s ∈ ss, Declares (s.nodes false) x := by
  induction ss with
  | nil => simp [stmtNodes]
  | cons s rest ih => simp [stmtNodes, ih]

theorem declares_stmtNodes_append {ss rest : List Stmt} :
    Declares (stmtNodes false (ss ++ rest)) x ↔
      Declares (stmtNodes false ss) x ∨ Declares (stmtNodes false rest) x := by
  rw [stmtNodes_append, declares_append]

end

/-! ## Statements -/

/-- A statement may take the place of `s`. -/
structure Stmt.Stands (b : Basis) (inner : List String) (s s' : Stmt) : Prop where
  exec : ∀ n cx labels labels', Surroundings.Coherent cx → s.isPlaced cx = true →
    cx.Admits labels → cx.Admits labels' →
    b.Matches inner (Outcome.Alike cx.loops) (s.exec n labels) (s'.exec n labels')
  names : ∀ x, Declares (s'.nodes false) x ↔ Declares (s.nodes false) x

/-- Statements may take the place of the list `ss`. -/
structure StmtsStand (b : Basis) (inner : List String) (ss ss' : List Stmt) : Prop where
  exec : ∀ n cx, Surroundings.Coherent cx → cx.own = none → allPlaced cx ss = true →
    b.Matches inner (Outcome.Alike cx.loops) (execAll n ss) (execAll n ss')
  names : ∀ x, Declares (stmtNodes false ss') x ↔ Declares (stmtNodes false ss) x

section

variable (b : Basis) (inner : List String)

/-- A declaration of the same names. -/
structure Declarator.Stands (d d' : Declarator) : Prop where
  name : d'.name = d.name
  init : Option.Rel (Expr.Stands b inner) d.init d'.init

structure VarDecl.Stands (d d' : VarDecl) : Prop where
  kind : d'.kind = d.kind
  decls : List.Forall₂ (Declarator.Stands b inner) d.decls d'.decls

inductive ForHead.Stands : ForHead → ForHead → Prop where
  | decl {d d' : VarDecl} (h : d.Stands b inner d') : Stands (.decl d) (.decl d')
  | expr {e e' : Expr} (h : e.Stands b inner e') : Stands (.expr e) (.expr e')

structure CatchClause.Stands (c c' : CatchClause) : Prop where
  param : c'.param = c.param
  named : ∀ i, c.param = some i → b.named i.name
  body : StmtsStand b ((c.param.map (·.name)).toList ++ inner) c.body.stmts c'.body.stmts

/-- The same statement with other parts. -/
inductive Stmt.SameShape : Stmt → Stmt → Prop where
  | block (id : NodeId) {ss ss' : List Stmt} (h : StmtsStand b inner ss ss') :
    SameShape (.block ⟨id, ss⟩) (.block ⟨id, ss'⟩)
  | empty (id : NodeId) : SameShape (.empty id) (.empty id)
  | expr (id : NodeId) {e e' : Expr} (h : e.Stands b inner e') :
    SameShape (.expr id e) (.expr id e')
  | var {d d' : VarDecl} (h : d.Stands b inner d') : SameShape (.var d) (.var d')
  | if (id : NodeId) {test test' : Expr} {yes yes' : Stmt} {no no' : Option Stmt}
    (ht : test.Stands b inner test') (hy : yes.Stands b inner yes')
    (hn : Option.Rel (Stmt.Stands b inner) no no') :
    SameShape (.if id test yes no) (.if id test' yes' no')
  | for (id : NodeId) {init init' : Option ForHead} {test test' update update' : Option Expr}
    {body body' : Stmt} (hi : Option.Rel (ForHead.Stands b inner) init init')
    (ht : Option.Rel (Expr.Stands b inner) test test')
    (hu : Option.Rel (Expr.Stands b inner) update update') (hb : body.Stands b inner body') :
    SameShape (.for id init test update body) (.for id init' test' update' body')
  | while (id : NodeId) {test test' : Expr} {body body' : Stmt} (ht : test.Stands b inner test')
    (hb : body.Stands b inner body') : SameShape (.while id test body) (.while id test' body')
  | doWhile (id : NodeId) {test test' : Expr} {body body' : Stmt} (hb : body.Stands b inner body')
    (ht : test.Stands b inner test') : SameShape (.doWhile id body test) (.doWhile id body' test')
  | return (id : NodeId) {arg arg' : Option Expr} (h : Option.Rel (Expr.Stands b inner) arg arg') :
    SameShape (.return id arg) (.return id arg')
  | break (id : NodeId) (label : Option Ident) : SameShape (.break id label) (.break id label)
  | continue (id : NodeId) (label : Option Ident) :
    SameShape (.continue id label) (.continue id label)
  | labeled (id : NodeId) (label : Ident) {body body' : Stmt} (h : body.Stands b inner body') :
    SameShape (.labeled id label body) (.labeled id label body')
  | throw (id : NodeId) {arg arg' : Expr} (h : arg.Stands b inner arg') :
    SameShape (.throw id arg) (.throw id arg')
  | try (id : NodeId) {block block' : Block} {handler handler' : Option CatchClause}
    {finalizer finalizer' : Option Block} (hb : StmtsStand b inner block.stmts block'.stmts)
    (hh : Option.Rel (CatchClause.Stands b inner) handler handler')
    (hf : Option.Rel (fun c c' : Block => StmtsStand b inner c.stmts c'.stmts) finalizer finalizer') :
    SameShape (.try id block handler finalizer) (.try id block' handler' finalizer')

end

section

variable {b : Basis} {inner : List String}

/-! ### Parts of statements -/

theorem matches_eval? {e e' : Option Expr} (h : Option.Rel (Expr.Stands b inner) e e') :
    b.Matches inner (Option.Rel Primitive.SameValue) (eval? e) (eval? e') := by
  cases h with
  | none => exact .pure .none
  | some h => exact h.eval.map fun _ _ => .some

theorem matches_testTruth {e e' : Option Expr} (h : Option.Rel (Expr.Stands b inner) e e') :
    b.Matches inner (· = ·) (testTruth e) (testTruth e') := by
  refine (matches_eval? h).map fun p q hpq => ?_
  cases hpq with
  | none => rfl
  | some hpq => exact Primitive.truthy_congr hpq

theorem matches_execDeclarators {ds ds' : List Declarator}
    (h : List.Forall₂ (Declarator.Stands b inner) ds ds') :
    b.Matches inner (· = ·) (execDeclarators ds) (execDeclarators ds') := by
  induction h with
  | nil => exact .pure rfl
  | @cons d d' rest rest' hd _ ih =>
    obtain ⟨id, name, init⟩ := d
    obtain ⟨id', name', init'⟩ := d'
    obtain ⟨hname, hinit⟩ := hd
    cases hname
    have hrest := extends_execDeclarators rest
    refine (matches_eval? hinit).bind (fun p => ?_) fun p q hpq => ?_
    · cases p with
      | none => exact hrest
      | some p => exact (Extends.assignName _ _).bind fun _ => hrest
    · cases hpq with
      | none => exact ih
      | some hpq => exact (Basis.matches_assignName _ hpq).bind (fun _ => hrest) fun _ _ _ => ih

theorem matches_execHead? {head head' : Option ForHead}
    (h : Option.Rel (ForHead.Stands b inner) head head') :
    b.Matches inner (· = ·) (execHead? head) (execHead? head') := by
  cases h with
  | none => exact .pure rfl
  | some h =>
    cases h with
    | decl h => exact matches_execDeclarators h.decls
    | expr h => exact h.eval.discard

theorem matches_exec? {s s' : Option Stmt} (h : Option.Rel (Stmt.Stands b inner) s s') (n : Nat)
    {cx : Surroundings} (hcx : cx.Coherent) (hown : cx.own = none) (hplaced : isPlaced? cx s = true) :
    b.Matches inner (Outcome.Alike cx.loops) (exec? n s) (exec? n s') := by
  cases h with
  | none => exact .pure .normal
  | some h => exact h.exec n cx [] [] hcx hplaced (cx.admits_nil hown) (cx.admits_nil hown)

theorem matches_execBlock? {c c' : Option Block}
    (h : Option.Rel (fun c c' : Block => StmtsStand b inner c.stmts c'.stmts) c c') (n : Nat)
    {cx : Surroundings} (hcx : cx.Coherent) (hown : cx.own = none)
    (hplaced : blockPlaced? cx c = true) :
    b.Matches inner (Outcome.Alike cx.loops) (execBlock? n c) (execBlock? n c') := by
  cases h with
  | none => exact .pure .normal
  | @some c c' h =>
    obtain ⟨id, ss⟩ := c
    obtain ⟨id', ss'⟩ := c'
    exact h.exec n cx hcx hown hplaced

theorem matches_execHandler {c c' : Option CatchClause}
    (h : Option.Rel (CatchClause.Stands b inner) c c') (n : Nat) {cx : Surroundings}
    (hcx : cx.Coherent) (hown : cx.own = none) (hplaced : handlerPlaced? cx c = true)
    {p q : Primitive} (hpq : p.SameValue q) :
    b.Matches inner (Outcome.Alike cx.loops) (execHandler n c p) (execHandler n c' q) := by
  cases h with
  | none => exact .pure (.throw hpq)
  | @some c c' h =>
    obtain ⟨id, param, ⟨bodyId, body⟩⟩ := c
    obtain ⟨id', param', ⟨bodyId', body'⟩⟩ := c'
    obtain ⟨hparam, hnamed, hbody⟩ := h
    cases hparam
    cases param with
    | none => exact hbody.exec n cx hcx hown hplaced
    | some i => exact .withVariable (hnamed i rfl) (hbody.exec n cx hcx hown hplaced) hpq

/-! ### Whole statements -/

theorem Stmt.SameShape.matches {s s' : Stmt} (h : s.SameShape b inner s') (n : Nat)
    {cx : Surroundings} {labels labels' : List String} (hcx : cx.Coherent)
    (hplaced : s.isPlaced cx = true) (hlabels : cx.Admits labels) (hlabels' : cx.Admits labels') :
    b.Matches inner (Outcome.Alike cx.loops) (s.exec n labels) (s'.exec n labels') := by
  -- A part stands where no label is on it.
  have hpart {t t' : Stmt} (ht : t.Stands b inner t') {cx' : Surroundings} (hcx' : cx'.Coherent)
      (hown : cx'.own = none) (hplaced' : t.isPlaced cx' = true) :
      b.Matches inner (Outcome.Alike cx'.loops) (t.exec n []) (t'.exec n []) :=
    ht.exec n cx' [] [] hcx' hplaced' (cx'.admits_nil hown) (cx'.admits_nil hown)
  cases h with
  | block id h => exact h.exec n cx.inside hcx.inside rfl hplaced
  | empty id => exact .pure .normal
  | expr id h => exact h.eval.discard.bind (fun _ => .pure _) fun _ _ _ => .pure .normal
  | var h => exact (matches_execDeclarators h.decls).bind (fun _ => .pure _) fun _ _ _ => .pure .normal
  | «if» id ht hy hn =>
    rw [Stmt.isPlaced, Bool.and_eq_true] at hplaced
    have hyes := hpart hy hcx.inside rfl hplaced.1
    have hno := matches_exec? hn n hcx.inside rfl hplaced.2
    exact ht.eval.branch hyes hno (Stmt.extends_exec n _ _) (extends_exec? n _)
  | «while» id ht hb =>
    exact .rounds hlabels hlabels' (matches_testTruth (.some ht)) (hpart hb hcx.loop rfl hplaced)
      (Stmt.extends_exec n _ _) (.pure rfl) (.pure _) (extends_testTruth _) n
  | doWhile id hb ht =>
    exact .roundsAfter hlabels hlabels' (matches_testTruth (.some ht)) (hpart hb hcx.loop rfl hplaced)
      (Stmt.extends_exec n _ _) (extends_testTruth _) n
  | @«for» id init init' test test' update update' body body' hi ht hu hb =>
    have hbody := body.extends_exec n []
    have hupdate := (extends_eval? update).discard
    exact (matches_execHead? hi).bind
      (fun _ => .rounds (extends_testTruth _) hbody hupdate n) fun _ _ _ =>
        .rounds hlabels hlabels' (matches_testTruth ht) (hpart hb hcx.loop rfl hplaced) hbody
          (matches_eval? hu).discard hupdate (extends_testTruth _) n
  | labeled id label h =>
    rw [Stmt.isPlaced, Bool.and_eq_true, Bool.not_eq_true', List.contains_eq_mem,
      decide_eq_false_iff_not] at hplaced
    exact (h.exec n (cx.labeled label.name) _ _ (hcx.labeled _) hplaced.2
      (hlabels.labeled hcx hplaced.1) (hlabels'.labeled hcx hplaced.1)).map fun _ _ h =>
        h.unlabeled label.name
  | «return» id h =>
    refine (matches_eval? h).map fun p q hpq => .return ?_
    cases hpq with
    | none => exact BEq.rfl
    | some hpq => exact hpq
  | throw id h => exact h.eval.map fun _ _ => .throw
  | «break» id label => exact .pure (.break _)
  | «continue» id label =>
    refine .pure (.continue fun l hl => ?_)
    cases label with
    | none => cases hl
    | some label =>
      cases hl
      exact List.contains_iff_mem.mp hplaced
  | @«try» id block block' handler handler' finalizer finalizer' hb hh hf =>
    obtain ⟨blockId, ss⟩ := block
    obtain ⟨blockId', ss'⟩ := block'
    simp only [Stmt.isPlaced, Bool.and_eq_true] at hplaced
    have hfinalizer := matches_execBlock? hf n hcx.inside rfl hplaced.2
    exact .attempt (hb.exec n cx.inside hcx.inside rfl hplaced.1.1)
      (fun p q hpq => matches_execHandler hh n hcx.inside rfl hplaced.1.2 hpq)
      (extends_execHandler n _) hfinalizer (extends_execBlock? n _)

theorem declares_decl {d d' : VarDecl} (h : d.Stands b inner d') (x : String) :
    Declares (d'.nodes false) x ↔ Declares (d.nodes false) x := by
  obtain ⟨hkind, hdecls⟩ := h
  obtain ⟨id, kind, ds⟩ := d
  obtain ⟨id', kind', ds'⟩ := d'
  have hnames {ds ds' : List Declarator} (h : List.Forall₂ (Declarator.Stands b inner) ds ds') :
      ds'.map (·.name) = ds.map (·.name) := by
    induction h with
    | nil => rfl
    | cons hd _ ih => rw [List.map_cons, List.map_cons, hd.name, ih]
  cases hkind
  simp only [VarDecl.nodes, declares_cons, Node.varNames, declares_declNodes, or_false, hnames hdecls]

theorem declares_head? {head head' : Option ForHead}
    (h : Option.Rel (ForHead.Stands b inner) head head') (x : String) :
    Declares (headNodes? false head') x ↔ Declares (headNodes? false head) x := by
  cases h with
  | none => exact Iff.rfl
  | some h =>
    cases h with
    | decl h => exact declares_decl h x
    | expr h => simp [headNodes?, ForHead.nodes]

theorem declares_stmt? {s s' : Option Stmt} (h : Option.Rel (Stmt.Stands b inner) s s')
    (x : String) : Declares (stmtNodes? false s') x ↔ Declares (stmtNodes? false s) x := by
  cases h with
  | none => exact Iff.rfl
  | some h => exact h.names x

theorem declares_block? {c c' : Option Block}
    (h : Option.Rel (fun c c' : Block => StmtsStand b inner c.stmts c'.stmts) c c') (x : String) :
    Declares (blockNodes? false c') x ↔ Declares (blockNodes? false c) x := by
  cases h with
  | none => exact Iff.rfl
  | @some c c' h =>
    obtain ⟨id, ss⟩ := c
    obtain ⟨id', ss'⟩ := c'
    exact h.names x

theorem declares_handler? {c c' : Option CatchClause}
    (h : Option.Rel (CatchClause.Stands b inner) c c') (x : String) :
    Declares (handlerNodes? false c') x ↔ Declares (handlerNodes? false c) x := by
  cases h with
  | none => exact Iff.rfl
  | @some c c' h =>
    obtain ⟨id, param, ⟨bodyId, body⟩⟩ := c
    obtain ⟨id', param', ⟨bodyId', body'⟩⟩ := c'
    simpa [handlerNodes?, CatchClause.nodes, Block.nodes] using h.body.names x

theorem Stmt.SameShape.stands {s s' : Stmt} (h : s.SameShape b inner s') : s.Stands b inner s' where
  exec n _ _ _ := h.matches n
  names x := by
    cases h with
    | block id h => simpa [Stmt.nodes, Block.nodes, Node.varNames] using h.names x
    | var h => simpa [Stmt.nodes, Node.varNames] using declares_decl h x
    | «if» id ht hy hn => simp [Stmt.nodes, Node.varNames, hy.names x, declares_stmt? hn x]
    | «for» id hi ht hu hb => simp [Stmt.nodes, Node.varNames, hb.names x, declares_head? hi x]
    | «while» id ht hb | doWhile id hb ht => simp [Stmt.nodes, Node.varNames, hb.names x]
    | labeled id label h => simp [Stmt.nodes, Node.varNames, h.names x]
    | @«try» id block block' handler handler' finalizer finalizer' hb hh hf =>
      obtain ⟨blockId, ss⟩ := block
      obtain ⟨blockId', ss'⟩ := block'
      have hblock := hb.names x
      simp [Stmt.nodes, Node.varNames, Block.nodes, hblock, declares_handler? hh x,
        declares_block? hf x]
    | _ => simp [Stmt.nodes, Node.varNames]

/-! ### Lists of statements -/

theorem StmtsStand.nil : StmtsStand b inner [] [] where
  exec _ _ _ _ _ := .pure .normal
  names _ := Iff.rfl

theorem StmtsStand.append {ss ss' rest rest' : List Stmt} (h : StmtsStand b inner ss ss')
    (hrest : StmtsStand b inner rest rest') :
    StmtsStand b inner (ss ++ rest) (ss' ++ rest') where
  exec n cx hcx hown hplaced := by
    rw [allPlaced_iff, List.forall_mem_append, ← allPlaced_iff, ← allPlaced_iff] at hplaced
    rw [execAll_append, execAll_append]
    exact (h.exec n cx hcx hown hplaced.1).andThen (hrest.exec n cx hcx hown hplaced.2)
      (extends_execAll n rest)
  names x := by
    rw [declares_stmtNodes_append, declares_stmtNodes_append, h.names x, hrest.names x]

theorem Stmt.Stands.single {s s' : Stmt} (h : s.Stands b inner s') :
    StmtsStand b inner [s] [s'] where
  exec n cx hcx hown hplaced := by
    rw [allPlaced, allPlaced, Bool.and_true] at hplaced
    rw [execAll_singleton, execAll_singleton]
    exact h.exec n cx [] [] hcx hplaced (cx.admits_nil hown) (cx.admits_nil hown)
  names x := by simpa [stmtNodes] using h.names x

/-- A list of statements, each of which may take the place of one. -/
theorem StmtsStand.of_members {ss ss' : List Stmt}
    (h : List.Forall₂ (Stmt.Stands b inner) ss ss') : StmtsStand b inner ss ss' := by
  induction h with
  | nil => exact .nil
  | cons hs _ ih => exact hs.single.append ih

end

/-! ## Declarations without values -/

/-- A declaration of these names that gives them no values. -/
inductive Stmt.OnlyDeclares (names : List String) : Stmt → Prop where
  | mk (id : NodeId) {ds : List Declarator} (hnames : ds.map (·.name.name) = names)
    (hinit : ∀ d ∈ ds, d.init = none) : OnlyDeclares names (.var ⟨id, .var, ds⟩)

theorem execDeclarators_of_bare {ds : List Declarator} (h : ∀ d ∈ ds, d.init = none) :
    execDeclarators ds = pure () := by
  induction ds with
  | nil => rfl
  | cons d rest ih =>
    obtain ⟨id, name, init⟩ := d
    obtain ⟨rfl, hrest⟩ := List.forall_mem_cons.mp h
    exact ih hrest

namespace Stmt.OnlyDeclares

variable {names : List String} {s : Stmt}

/-- It does nothing. -/
theorem exec (h : s.OnlyDeclares names) (n : Nat) (labels : List String) :
    s.exec n labels = pure .normal := by
  obtain ⟨id, hnames, hinit⟩ := h
  rw [Stmt.exec, execDeclarators_of_bare hinit]
  rfl

theorem declares (h : s.OnlyDeclares names) (x : String) :
    Declares (s.nodes false) x ↔ x ∈ names := by
  obtain ⟨id, hnames, hinit⟩ := h
  simp [Stmt.nodes, VarDecl.nodes, Node.varNames, ← hnames]

end Stmt.OnlyDeclares

end EsOptimizer
