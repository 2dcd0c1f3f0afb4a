import EsOptimizer.Proofs.Pass.Yields
import EsOptimizer.Proofs.Rewrite.Stands
import EsOptimizer.Proofs.Scope.Resolved
import EsOptimizer.Proofs.Run.Plain
import EsOptimizer.Syntax.Transform

/-!
# Traversals that preserve runs

A traversal of a plain function gives one that runs alike, if its hooks put in the place of what they
are given only what may stand there (`Transform.Preserves`).
-/

namespace EsOptimizer

namespace Basis

/-- The ids to be handed out are new. -/
def Fresh (b : Basis) (s : EditState) : Prop := b.nextId ≤ s.nextId

section

variable {b : Basis} {α : Type} {P : α → Prop}

theorem yields_new {f : NodeId → Edit α} (h : ∀ id, b.nextId ≤ id → Yields b.Fresh (f id) P) :
    Yields b.Fresh (Edit.newId >>= f) P :=
  fun s hs => h s.nextId hs { s with nextId := s.nextId + 1 } (Nat.le_succ_of_le hs)

theorem yields_named {name : String} {f : Ident → Edit α}
    (h : ∀ id, b.nextId ≤ id → Yields b.Fresh (f ⟨id, name⟩) P) :
    Yields b.Fresh (Make.ident name >>= f) P :=
  yields_new h

theorem yields_changed {x : Edit α} (h : Yields b.Fresh x P) :
    Yields b.Fresh (Edit.markChanged >>= fun _ => x) P :=
  fun s hs => h { s with changed := true } hs

end

/-- The parameter of a handler is a declared variable. -/
theorem named_caught (b : Basis) {s : ScopeId} {i : Ident} {v : VarId}
    (h : b.scopes.HasCaught s i v) : b.named i.name := by
  have hmem : (i.name, v) ∈ (b.scopes.scope s).vars := by simp [h.vars]
  obtain ⟨hlt, -, hname⟩ := b.ok.listed s _ hmem
  refine ⟨v, hlt, hname, ?_⟩
  rw [h.kind]
  decide

end Basis

theorem Make.vars_onlyDeclares {b : Basis} (names : List String) :
    Yields b.Fresh (Make.vars names) (Stmt.OnlyDeclares names) := by
  have hone (name : String) : Yields b.Fresh (Make.declarator name none) fun d =>
      d.name.name = name ∧ d.init = none :=
    Basis.yields_new fun id _ => Basis.yields_named fun i _ => .pure ⟨rfl, rfl⟩
  have hdecls : Yields b.Fresh (names.mapM (Make.declarator · none)) fun ds =>
      ds.map (·.name.name) = names ∧ ∀ d ∈ ds, d.init = none := by
    induction names with
    | nil => exact .pure ⟨rfl, nofun⟩
    | cons name rest ih =>
      rw [List.mapM_cons]
      refine (hone name).bind fun d hd => ih.bind fun ds hds => .pure ⟨?_, ?_⟩
      · rw [List.map_cons, hd.1, hds.1]
      · exact List.forall_mem_cons.mpr ⟨hd.2, hds.2⟩
  exact Basis.yields_new fun id _ => hdecls.bind fun ds hds => .pure (.mk id hds.1 hds.2)

namespace Transform

/-- The hooks put in place what may stand there. Of the members of a list, more may be known than
that they stand for the members of the list before. -/
structure Preserves (t : Transform) (b : Basis) (member : List String → Stmt → Stmt → Prop) : Prop where
  entersFunctions : t.enterFunctions = true
  entersValues : ∀ e, t.enter .value e = true
  target : ∀ i, t.onExpr (.ident i) .target = pure (.ident i)
  expr : ∀ inner (e e' : Expr), e.SameShape (Expr.Stands b inner) e' →
    Yields b.Fresh (t.expr .value e') (e.Stands b inner)
  stmt : ∀ inner place (s s' : Stmt), s.SameShape b inner s' →
    Yields b.Fresh (t.stmt place s s') fun ss => ∃ x, ss = [x] ∧ member inner s x
  stands : ∀ inner (s x : Stmt), member inner s x → s.Stands b inner x
  list : ∀ inner isBody ss ss', List.Forall₂ (member inner) ss ss' →
    Yields b.Fresh (t.list isBody ss') (StmtsStand b inner ss)
  func : ∀ f, t.func f = pure f

namespace Preserves

variable {t : Transform} {b : Basis} {member : List String → Stmt → Stmt → Prop}
  {constants own inner : List String}

theorem replaced (h : t.Preserves b member) {e : Expr} {parts : Edit Expr}
    (hparts : Yields b.Fresh parts (e.SameShape (Expr.Stands b inner))) :
    Yields b.Fresh (t.replaced .value e parts) (e.Stands b inner) := by
  unfold Transform.replaced
  rw [if_pos (h.entersValues e)]
  exact hparts.bind fun x hx => h.expr inner e x hx

mutual

theorem onExpr (h : t.Preserves b member) (e : Expr) (he : e.isPlain constants own = true) :
    Yields b.Fresh (t.onExpr e .value) (e.Stands b inner) := by
  unfold Transform.onExpr
  refine h.replaced ?_
  cases e with
  | ident i => exact .pure (.ident i)
  | string | bool | null | number => exact .pure (.literal rfl)
  | unary id op arg =>
    rw [Expr.isPlain, Bool.and_eq_true, bne_iff_ne] at he
    have hrole : operandRole op = .value := if_neg he.1
    change Yields b.Fresh (t.onExpr arg (operandRole op) >>= _) _
    rw [hrole]
    exact (h.onExpr arg he.2).bind fun x hx => .pure (.unary id op hx)
  | update id op before arg =>
    cases arg with
    | ident i =>
      change Yields b.Fresh (t.onExpr (.ident i) .target >>= _) _
      rw [h.target i]
      exact .pure (.update id op before i)
    | _ => simp [Expr.isPlain] at he
  | binary id op left right =>
    simp only [Expr.isPlain, Bool.and_eq_true] at he
    exact (h.onExpr left he.1.2).bind fun x hx => (h.onExpr right he.2).bind fun y hy =>
      .pure (.binary id op hx hy)
  | assign id op left right =>
    cases left with
    | ident i =>
      rw [Expr.isPlain, Bool.and_eq_true] at he
      change Yields b.Fresh (t.onExpr (.ident i) .target >>= _) _
      rw [h.target i]
      exact (h.onExpr right he.2).bind fun x hx => .pure (.assign id op i hx)
    | _ => simp [Expr.isPlain] at he
  | cond id test yes no =>
    simp only [Expr.isPlain, Bool.and_eq_true] at he
    exact (h.onExpr test he.1.1).bind fun x hx => (h.onExpr yes he.1.2).bind fun y hy =>
      (h.onExpr no he.2).bind fun z hz => .pure (.cond id hx hy hz)
  | seq id es => exact (h.onExprs es he).bind fun xs hxs => .pure (.seq id hxs)
  | _ => simp [Expr.isPlain] at he
termination_by structural e

theorem onExprs (h : t.Preserves b member) (es : List Expr)
    (hes : arePlain constants own es = true) :
    Yields b.Fresh (t.onExprs es) (List.Forall₂ (Expr.Stands b inner) es) := by
  match es with
  | [] => exact .pure .nil
  | e :: rest =>
    rw [arePlain, Bool.and_eq_true] at hes
    exact (h.onExpr e hes.1).bind fun x hx => (h.onExprs rest hes.2).bind fun xs hxs =>
      .pure (.cons hx hxs)
termination_by structural es

end

theorem onExpr? (h : t.Preserves b member) {e : Option Expr}
    (he : EsOptimizer.isPlain? constants own e = true) :
    Yields b.Fresh (t.onExpr? e) (Option.Rel (Expr.Stands b inner) e) := by
  cases e with
  | none => exact .pure .none
  | some e => exact (h.onExpr e he).bind fun x hx => .pure (.some hx)

theorem onDeclarators (h : t.Preserves b member) {ds : List Declarator}
    (hds : ∀ d ∈ ds, (own.contains d.name.name && EsOptimizer.isPlain? constants own d.init) = true) :
    Yields b.Fresh (t.onDeclarators ds) (List.Forall₂ (Declarator.Stands b inner) ds) := by
  induction ds with
  | nil => exact .pure .nil
  | cons d rest ih =>
    obtain ⟨id, name, init⟩ := d
    obtain ⟨hd, hrest⟩ := List.forall_mem_cons.mp hds
    rw [Bool.and_eq_true] at hd
    exact (h.onExpr? hd.2).bind fun x hx => (ih hrest).bind fun xs hxs =>
      .pure (.cons ⟨rfl, hx⟩ hxs)

theorem onDecl (h : t.Preserves b member) {d : VarDecl} (hd : d.isPlain constants own = true) :
    Yields b.Fresh (t.onDecl d) (d.Stands b inner) := by
  obtain ⟨id, kind, decls⟩ := d
  rw [VarDecl.isPlain, Bool.and_eq_true] at hd
  exact (h.onDeclarators (List.all_eq_true.mp hd.2)).bind fun xs hxs => .pure ⟨rfl, hxs⟩

theorem onHead? (h : t.Preserves b member) {head : Option ForHead}
    (hhead : head.all (·.isPlain constants own) = true) :
    Yields b.Fresh (t.onHead? head) (Option.Rel (ForHead.Stands b inner) head) := by
  match head with
  | none => exact .pure .none
  | some (.decl d) =>
    exact Yields.bind (P := ForHead.Stands b inner (.decl d))
      ((h.onDecl hhead).bind fun x hx => .pure (.decl hx)) fun x hx => .pure (.some hx)
  | some (.expr e) =>
    exact Yields.bind (P := ForHead.Stands b inner (.expr e))
      ((h.onExpr e hhead).bind fun x hx => .pure (.expr hx)) fun x hx => .pure (.some hx)

/-- A statement that stands alone. -/
theorem alone (h : t.Preserves b member) {s : Stmt}
    (hs : Yields b.Fresh (t.onParts s) (s.SameShape b inner)) :
    Yields b.Fresh (t.onParts s >>= t.alone s) (s.Stands b inner) := by
  refine hs.bind fun after hafter => (h.stmt inner .alone s after hafter).bind ?_
  rintro _ ⟨x, rfl, hx⟩
  exact .pure (h.stands inner s x hx)

mutual

theorem onParts (h : t.Preserves b member) (s : Stmt) {own inner : List String} {scope : ScopeId}
    (hs : s.isPlain constants own = true) (hresolved : s.Resolved b.scopes scope) :
    Yields b.Fresh (t.onParts s) (s.SameShape b inner) := by
  cases s with
  | block block =>
    obtain ⟨id, ss⟩ := block
    exact (h.onBlock ⟨id, ss⟩ hs hresolved).bind fun x hx => by
      obtain ⟨id', ss'⟩ := x
      obtain ⟨hid, hx⟩ := hx
      cases hid
      exact .pure (.block id hx)
  | empty id => exact .pure (.empty id)
  | expr id e => exact (h.onExpr e hs).bind fun x hx => .pure (.expr id hx)
  | var d => exact (h.onDecl hs).bind fun x hx => .pure (.var hx)
  | «if» id test yes no =>
    simp only [Stmt.isPlain, Bool.and_eq_true] at hs
    obtain ⟨-, hyes, hno⟩ := hresolved
    exact (h.onExpr test hs.1.1).bind fun x hx =>
      (h.alone (h.onParts yes hs.1.2 hyes)).bind fun y hy =>
        (h.onAlone? no hs.2 hno).bind fun z hz => .pure (.if id hx hy hz)
  | «for» id init test update body =>
    simp only [Stmt.isPlain, Bool.and_eq_true] at hs
    obtain ⟨⟨⟨hinit, htest⟩, hupdate⟩, hbody⟩ := hs
    have hbare : BareHead init := by
      match init with
      | none => trivial
      | some (.expr _) => trivial
      | some (.decl d) =>
        rw [Option.all_some, ForHead.isPlain, VarDecl.isPlain, Bool.and_eq_true] at hinit
        exact beq_iff_eq.mp hinit.1
    rw [Stmt.Resolved] at hresolved
    obtain ⟨-, -, -, -, hbody'⟩ := hresolved hbare
    exact (h.onHead? hinit).bind fun w hw => (h.onExpr? htest).bind fun x hx =>
      (h.onExpr? hupdate).bind fun y hy => (h.alone (h.onParts body hbody hbody')).bind fun z hz =>
        .pure (.for id hw hx hy hz)
  | «while» id test body =>
    rw [Stmt.isPlain, Bool.and_eq_true] at hs
    exact (h.onExpr test hs.1).bind fun x hx =>
      (h.alone (h.onParts body hs.2 hresolved.2)).bind fun y hy => .pure (.while id hx hy)
  | doWhile id body test =>
    rw [Stmt.isPlain, Bool.and_eq_true] at hs
    exact (h.alone (h.onParts body hs.2 hresolved.1)).bind fun y hy =>
      (h.onExpr test hs.1).bind fun x hx => .pure (.doWhile id hy hx)
  | «return» id arg => exact (h.onExpr? hs).bind fun x hx => .pure (.return id hx)
  | «break» id label => exact .pure (.break id label)
  | «continue» id label => exact .pure (.continue id label)
  | labeled id label body =>
    exact (h.alone (h.onParts body hs hresolved)).bind fun x hx => .pure (.labeled id label hx)
  | throw id arg => exact (h.onExpr arg hs).bind fun x hx => .pure (.throw id hx)
  | «try» id block handler finalizer =>
    simp only [Stmt.isPlain, Bool.and_eq_true] at hs
    obtain ⟨hblock, hhandler, hfinalizer⟩ := hresolved
    exact (h.onBlock block hs.1.1 hblock).bind fun x hx =>
      (h.onHandler? handler hs.1.2 hhandler).bind fun y hy =>
        (h.onBlock? finalizer hs.2 hfinalizer).bind fun z hz => .pure (.try id hx.2 hy hz)
  | _ => simp [Stmt.isPlain] at hs
termination_by structural s

theorem onAlone? (h : t.Preserves b member) (s : Option Stmt) {own inner : List String}
    {scope : ScopeId} (hs : isPlainStmt? constants s own = true)
    (hresolved : StmtResolved? b.scopes s scope) :
    Yields b.Fresh (t.onAlone? s) (Option.Rel (Stmt.Stands b inner) s) := by
  match s with
  | none => exact .pure .none
  | some s => exact (h.alone (h.onParts s hs hresolved)).bind fun x hx => .pure (.some hx)
termination_by structural s

theorem onBlock (h : t.Preserves b member) (c : Block) {own inner : List String} {scope : ScopeId}
    (hc : c.isPlain constants own = true) (hresolved : c.Resolved b.scopes scope) :
    Yields b.Fresh (t.onBlock c) fun x => x.id = c.id ∧ StmtsStand b inner c.stmts x.stmts := by
  match c with
  | ⟨id, ss⟩ =>
    obtain ⟨scope', -, -, hss⟩ := hresolved
    exact (h.onStmts ss hc hss).bind fun xs hxs => (h.list inner false ss xs hxs).bind fun ys hys =>
      .pure ⟨rfl, hys⟩
termination_by structural c

theorem onBlock? (h : t.Preserves b member) (c : Option Block) {own inner : List String}
    {scope : ScopeId} (hc : isPlainBlock? constants c own = true)
    (hresolved : BlockResolved? b.scopes c scope) : Yields b.Fresh (t.onBlock? c)
      (Option.Rel (fun c x : Block => StmtsStand b inner c.stmts x.stmts) c) := by
  match c with
  | none => exact .pure .none
  | some c => exact (h.onBlock c hc hresolved).bind fun x hx => .pure (.some hx.2)
termination_by structural c

theorem onHandler? (h : t.Preserves b member) (c : Option CatchClause) {own inner : List String}
    {scope : ScopeId} (hc : isPlainHandler? constants c own = true)
    (hresolved : HandlerResolved? b.scopes c scope) :
    Yields b.Fresh (t.onHandler? c) (Option.Rel (CatchClause.Stands b inner) c) := by
  match c with
  | none => exact .pure .none
  | some ⟨id, none, body⟩ =>
    obtain ⟨scope', -, -, hbody⟩ := hresolved
    exact (h.onBlock body hc hbody).bind fun x hx => .pure (.some ⟨rfl, nofun, hx.2⟩)
  | some ⟨id, some param, body⟩ =>
    obtain ⟨scope', -, ⟨v, hv⟩, hbody⟩ := hresolved
    refine (h.onBlock body hc hbody).bind fun x hx => .pure (.some ⟨rfl, fun i hi => ?_, hx.2⟩)
    cases hi
    exact b.named_caught hv
termination_by structural c

theorem onStmts (h : t.Preserves b member) (ss : List Stmt) {own inner : List String}
    {scope : ScopeId} (hss : arePlainStmts constants ss own = true)
    (hresolved : StmtsResolved b.scopes ss scope) :
    Yields b.Fresh (t.onStmts ss) (List.Forall₂ (member inner) ss) := by
  match ss with
  | [] => exact .pure .nil
  | s :: rest =>
    rw [arePlainStmts, Bool.and_eq_true] at hss
    refine (h.onParts s hss.1 hresolved.1).bind fun after hafter =>
      (h.stmt inner .listed s after hafter).bind ?_
    rintro _ ⟨x, rfl, hx⟩
    exact (h.onStmts rest hss.2 hresolved.2).bind fun xs hxs => .pure (.cons hx hxs)
termination_by structural ss

end

/-- A function keeps its id and parameters, and its body becomes one that may take its place. -/
theorem onFunc (h : t.Preserves b member) {f : Func} {scope : ScopeId}
    (hf : f.hasPlainBody constants = true) (hresolved : StmtsResolved b.scopes f.body.stmts scope) :
    Yields b.Fresh (t.onFunc f) fun g => g.id = f.id ∧ g.params = f.params ∧
      StmtsStand b [] f.body.stmts g.body.stmts := by
  obtain ⟨id, params, ⟨bodyId, ss⟩⟩ := f
  unfold Transform.onFunc
  rw [h.entersFunctions, if_neg (by decide)]
  refine (h.onStmts ss hf hresolved).bind fun xs hxs =>
    (h.list [] true ss xs hxs).bind fun ys hys => ?_
  rw [h.func]
  exact .pure ⟨rfl, rfl, hys⟩

end Preserves

end Transform

end EsOptimizer
