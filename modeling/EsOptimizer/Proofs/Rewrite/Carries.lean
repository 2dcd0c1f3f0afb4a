import EsOptimizer.Proofs.Rewrite.Traversal

/-!
# The functions of a changed program

A traversal whose hooks make no functions (`Transform.Carries`) leaves a program with no functions but
those that were there before and what it made of them. So what is shown of every function by itself
holds of the functions of the program.
-/

namespace EsOptimizer

/-! ## Functions in lists of nodes -/

/-- Every function in a list of nodes satisfies `P`. -/
def AllFuncs (P : Func → Prop) (ns : List Node) : Prop := ∀ f, .func f ∈ ns → P f

section

variable {P : Func → Prop} {f : Func} {n : Node} {ns ms : List Node}

@[simp] theorem allFuncs_nil : AllFuncs P [] := nofun

@[simp] theorem allFuncs_append : AllFuncs P (ns ++ ms) ↔ AllFuncs P ns ∧ AllFuncs P ms := by
  simp only [AllFuncs, List.mem_append, or_imp, forall_and]

@[simp] theorem allFuncs_func : AllFuncs P (.func f :: ns) ↔ P f ∧ AllFuncs P ns := by
  simp [AllFuncs, or_imp, forall_and]

theorem allFuncs_cons (h : n.func? = none) : AllFuncs P (n :: ns) ↔ AllFuncs P ns := by
  refine forall_congr' fun f => ?_
  rw [List.mem_cons, or_iff_right]
  rintro rfl
  cases h

@[simp] theorem allFuncs_expr (e : Expr) : AllFuncs P (.expr e :: ns) ↔ AllFuncs P ns :=
  allFuncs_cons rfl

@[simp] theorem allFuncs_stmt (s : Stmt) : AllFuncs P (.stmt s :: ns) ↔ AllFuncs P ns :=
  allFuncs_cons rfl

@[simp] theorem allFuncs_decl (d : VarDecl) : AllFuncs P (.decl d :: ns) ↔ AllFuncs P ns :=
  allFuncs_cons rfl

@[simp] theorem allFuncs_loopDecl (d : VarDecl) : AllFuncs P (.loopDecl d :: ns) ↔ AllFuncs P ns :=
  allFuncs_cons rfl

@[simp] theorem allFuncs_name (i : Ident) : AllFuncs P (.name i :: ns) ↔ AllFuncs P ns :=
  allFuncs_cons rfl

@[simp] theorem allFuncs_names (is : List Ident) : AllFuncs P (is.map .name) := by
  induction is with
  | nil => exact allFuncs_nil
  | cons i is ih => exact (allFuncs_name i).mpr ih

@[simp] theorem allFuncs_name? (name : Option Ident) : AllFuncs P (Node.name? name) := by
  cases name <;> simp [Node.name?]

theorem allFuncs_stmtNodes {ss : List Stmt} :
    AllFuncs P (stmtNodes true ss) ↔ ∀ s ∈ ss, AllFuncs P (s.nodes true) := by
  induction ss with
  | nil => simp [stmtNodes]
  | cons s rest ih => simp [stmtNodes, ih]

end

attribute [local simp] Expr.nodes elemNodes exprNodes exprNodes? PropertyKey.nodes Property.nodes
  propNodes Func.nodes Block.nodes blockNodes? Declarator.nodes declNodes VarDecl.nodes ForHead.nodes
  ForHead.loopNodes headNodes? CatchClause.nodes handlerNodes? Stmt.nodes stmtNodes? stmtNodes

theorem allFuncs_bareDecls {P : Func → Prop} {ds : List Declarator} (h : ∀ d ∈ ds, d.init = none) :
    AllFuncs P (declNodes true ds) := by
  induction ds with
  | nil => exact allFuncs_nil
  | cons d rest ih =>
    obtain ⟨id, name, init⟩ := d
    obtain ⟨rfl, hrest⟩ := List.forall_mem_cons.mp h
    simpa using ih hrest

theorem Stmt.OnlyDeclares.allFuncs {P : Func → Prop} {names : List String} {s : Stmt}
    (h : s.OnlyDeclares names) : AllFuncs P (s.nodes true) := by
  obtain ⟨id, -, hinit⟩ := h
  simpa using allFuncs_bareDecls hinit

/-! ## The traversal -/

/-- Statements that become one statement. -/
theorem Make.carries_single {b : Basis} {P : Func → Prop} {ss : List Stmt}
    (h : AllFuncs P (stmtNodes true ss)) :
    Yields b.Fresh (Make.single ss) fun s => AllFuncs P (s.nodes true) := by
  match ss with
  | [] => exact Basis.yields_new fun id _ => .pure (by simp)
  | [s] => exact .pure (by simpa using h)
  | s :: s' :: rest => exact Basis.yields_new fun id _ => .pure (by simpa using h)

namespace Transform

/-- The hooks make no functions, they only keep some of those they are given. Declarations of
functions stay where they are. -/
structure Carries (t : Transform) (b : Basis) : Prop where
  expr : ∀ P role e, AllFuncs P (e.nodes true) →
    Yields b.Fresh (t.expr role e) fun x => AllFuncs P (x.nodes true)
  stmt : ∀ P place before after, AllFuncs P (after.nodes true) →
    Yields b.Fresh (t.stmt place before after) fun ss => AllFuncs P (stmtNodes true ss)
  list : ∀ P isBody ss, AllFuncs P (stmtNodes true ss) →
    Yields b.Fresh (t.list isBody ss) fun xs => AllFuncs P (stmtNodes true xs)
  func : ∀ f, t.func f = pure f
  declaration : ∀ place before id name f,
    t.stmt place before (.function id name f) = pure [.function id name f]
  declarations : ∀ isBody ss id name f, .function id name f ∈ ss →
    Yields b.Fresh (t.list isBody ss) fun xs => .function id name f ∈ xs

/-- A function satisfies `P`, and so does whatever becomes of it. -/
def Makes (t : Transform) (b : Basis) (P : Func → Prop) (f : Func) : Prop :=
  P f ∧ ∀ s, b.Fresh s → P (t.onFunc f s).1

theorem Makes.all {t : Transform} {b : Basis} {P : Func → Prop} {ns : List Node}
    (h : AllFuncs (t.Makes b P) ns) : AllFuncs P ns :=
  fun f hf => (h f hf).1

namespace Carries

variable {t : Transform} {b : Basis} {P : Func → Prop}

theorem replaced (h : t.Carries b) (role : Role) {e : Expr} (he : AllFuncs P (e.nodes true))
    {parts : Edit Expr} (hparts : Yields b.Fresh parts fun x => AllFuncs P (x.nodes true)) :
    Yields b.Fresh (t.replaced role e parts) fun x => AllFuncs P (x.nodes true) := by
  unfold Transform.replaced
  split
  · exact hparts.bind fun x hx => h.expr P role x hx
  · exact .pure he

theorem alone (h : t.Carries b) {s : Stmt}
    (hs : Yields b.Fresh (t.onParts s) fun x => AllFuncs P (x.nodes true)) :
    Yields b.Fresh (t.onParts s >>= t.alone s) fun x => AllFuncs P (x.nodes true) :=
  hs.bind fun after hafter => (h.stmt P .alone s after hafter).bind fun _ hss => Make.carries_single hss

mutual

theorem onExpr (h : t.Carries b) (e : Expr) (role : Role)
    (he : AllFuncs (t.Makes b P) (e.nodes true)) :
    Yields b.Fresh (t.onExpr e role) fun x => AllFuncs P (x.nodes true) := by
  unfold Transform.onExpr
  refine h.replaced role (Makes.all he) ?_
  cases e with
  | array id elems =>
    exact (h.onElems elems ((allFuncs_expr _).mp he)).bind fun a ha => .pure (by simpa using ha)
  | object id props =>
    exact (h.onProps props ((allFuncs_expr _).mp he)).bind fun a ha => .pure (by simpa using ha)
  | function id name fn =>
    have hfn := (allFuncs_append.mp ((allFuncs_expr _).mp he)).2
    exact (h.onFunc fn hfn).bind fun a ha =>
      .pure ((allFuncs_expr _).mpr (allFuncs_append.mpr ⟨allFuncs_name? _, ha⟩))
  | unary id op arg =>
    exact (h.onExpr arg _ ((allFuncs_expr _).mp he)).bind fun a ha => .pure (by simpa using ha)
  | update id op before arg =>
    exact (h.onExpr arg _ ((allFuncs_expr _).mp he)).bind fun a ha => .pure (by simpa using ha)
  | binary id op left right =>
    obtain ⟨hl, hr⟩ := allFuncs_append.mp ((allFuncs_expr _).mp he)
    exact (h.onExpr left _ hl).bind fun a ha => (h.onExpr right _ hr).bind fun b hb =>
      .pure (by simp [ha, hb])
  | assign id op left right =>
    obtain ⟨hl, hr⟩ := allFuncs_append.mp ((allFuncs_expr _).mp he)
    exact (h.onExpr left _ hl).bind fun a ha => (h.onExpr right _ hr).bind fun b hb =>
      .pure (by simp [ha, hb])
  | member id obj name =>
    exact (h.onExpr obj _ ((allFuncs_expr _).mp he)).bind fun a ha => .pure (by simpa using ha)
  | index id obj key =>
    obtain ⟨hl, hr⟩ := allFuncs_append.mp ((allFuncs_expr _).mp he)
    exact (h.onExpr obj _ hl).bind fun a ha => (h.onExpr key _ hr).bind fun b hb =>
      .pure (by simp [ha, hb])
  | cond id test yes no =>
    obtain ⟨hfirst, hno⟩ := allFuncs_append.mp ((allFuncs_expr _).mp he)
    obtain ⟨htest, hyes⟩ := allFuncs_append.mp hfirst
    exact (h.onExpr test _ htest).bind fun a ha => (h.onExpr yes _ hyes).bind fun b hb =>
      (h.onExpr no _ hno).bind fun c hc => .pure (by simp [ha, hb, hc])
  | call id callee args =>
    obtain ⟨hl, hr⟩ := allFuncs_append.mp ((allFuncs_expr _).mp he)
    exact (h.onExpr callee _ hl).bind fun a ha => (h.onExprs args hr).bind fun b hb =>
      .pure (by simp [ha, hb])
  | new id callee args =>
    obtain ⟨hl, hr⟩ := allFuncs_append.mp ((allFuncs_expr _).mp he)
    exact (h.onExpr callee _ hl).bind fun a ha => (h.onExprs args hr).bind fun b hb =>
      .pure (by simp [ha, hb])
  | seq id exprs =>
    exact (h.onExprs exprs ((allFuncs_expr _).mp he)).bind fun a ha => .pure (by simpa using ha)
  | _ => exact .pure (Makes.all he)
termination_by structural e

theorem onElems (h : t.Carries b) (es : List (Option Expr))
    (hes : AllFuncs (t.Makes b P) (elemNodes true es)) :
    Yields b.Fresh (t.onElems es) fun xs => AllFuncs P (elemNodes true xs) := by
  match es with
  | [] => exact .pure allFuncs_nil
  | none :: rest => exact (h.onElems rest hes).bind fun a ha => .pure ha
  | some e :: rest =>
    obtain ⟨he, hrest⟩ := allFuncs_append.mp hes
    exact (h.onExpr e _ he).bind fun a ha => (h.onElems rest hrest).bind fun b hb =>
      .pure (allFuncs_append.mpr ⟨ha, hb⟩)
termination_by structural es

theorem onExprs (h : t.Carries b) (es : List Expr)
    (hes : AllFuncs (t.Makes b P) (exprNodes true es)) :
    Yields b.Fresh (t.onExprs es) fun xs => AllFuncs P (exprNodes true xs) := by
  match es with
  | [] => exact .pure allFuncs_nil
  | e :: rest =>
    obtain ⟨he, hrest⟩ := allFuncs_append.mp hes
    exact (h.onExpr e _ he).bind fun a ha => (h.onExprs rest hrest).bind fun b hb =>
      .pure (allFuncs_append.mpr ⟨ha, hb⟩)
termination_by structural es

theorem onExpr? (h : t.Carries b) (e : Option Expr)
    (he : AllFuncs (t.Makes b P) (exprNodes? true e)) :
    Yields b.Fresh (t.onExpr? e) fun x => AllFuncs P (exprNodes? true x) := by
  match e with
  | none => exact .pure allFuncs_nil
  | some e => exact (h.onExpr e _ he).bind fun a ha => .pure ha
termination_by structural e

theorem onKey (h : t.Carries b) (key : PropertyKey)
    (hkey : AllFuncs (t.Makes b P) (key.nodes true)) :
    Yields b.Fresh (t.onKey key) fun x => AllFuncs P (x.nodes true) := by
  match key with
  | .computed e => exact (h.onExpr e _ hkey).bind fun a ha => .pure ha
  | .ident _ | .string _ _ | .number _ _ => exact .pure allFuncs_nil
termination_by structural key

theorem onProperty (h : t.Carries b) (p : Property)
    (hp : AllFuncs (t.Makes b P) (p.nodes true)) :
    Yields b.Fresh (t.onProperty p) fun x => AllFuncs P (x.nodes true) := by
  match p with
  | .value id key value =>
    obtain ⟨hkey, hvalue⟩ := allFuncs_append.mp hp
    exact (h.onKey key hkey).bind fun a ha => (h.onExpr value _ hvalue).bind fun b hb =>
      .pure (allFuncs_append.mpr ⟨ha, hb⟩)
  | .getter id key fn =>
    obtain ⟨hkey, hfn⟩ := allFuncs_append.mp hp
    exact (h.onKey key hkey).bind fun a ha => (h.onFunc fn hfn).bind fun b hb =>
      .pure (allFuncs_append.mpr ⟨ha, hb⟩)
  | .setter id key fn =>
    obtain ⟨hkey, hfn⟩ := allFuncs_append.mp hp
    exact (h.onKey key hkey).bind fun a ha => (h.onFunc fn hfn).bind fun b hb =>
      .pure (allFuncs_append.mpr ⟨ha, hb⟩)
termination_by structural p

theorem onProps (h : t.Carries b) (ps : List Property)
    (hps : AllFuncs (t.Makes b P) (propNodes true ps)) :
    Yields b.Fresh (t.onProps ps) fun xs => AllFuncs P (propNodes true xs) := by
  match ps with
  | [] => exact .pure allFuncs_nil
  | p :: rest =>
    obtain ⟨hp, hrest⟩ := allFuncs_append.mp hps
    exact (h.onProperty p hp).bind fun a ha => (h.onProps rest hrest).bind fun b hb =>
      .pure (allFuncs_append.mpr ⟨ha, hb⟩)
termination_by structural ps

theorem onFunc (h : t.Carries b) (f : Func) (hf : AllFuncs (t.Makes b P) (f.nodes true)) :
    Yields b.Fresh (t.onFunc f) fun x => AllFuncs P (x.nodes true) := by
  match f with
  | ⟨id, params, ⟨bodyId, stmts⟩⟩ =>
    obtain ⟨hmakes, hparts⟩ := allFuncs_func.mp hf
    have hbody : Yields b.Fresh (t.onFunc ⟨id, params, ⟨bodyId, stmts⟩⟩) fun x =>
        AllFuncs P (x.body.nodes true) := by
      unfold Transform.onFunc
      split
      · exact .pure (Makes.all (allFuncs_append.mp hparts).2)
      · refine (h.onStmts stmts (allFuncs_append.mp hparts).2).bind fun a ha =>
          (h.list P true a ha).bind fun b hb => ?_
        rw [h.func]
        exact .pure hb
    intro s hs
    obtain ⟨hs', hx⟩ := hbody s hs
    refine ⟨hs', ?_⟩
    have hself := hmakes.2 s hs
    generalize (t.onFunc ⟨id, params, ⟨bodyId, stmts⟩⟩ s).1 = x at hx hself ⊢
    obtain ⟨id', params', body'⟩ := x
    exact allFuncs_func.mpr ⟨hself, allFuncs_append.mpr ⟨allFuncs_names _, hx⟩⟩
termination_by structural f

theorem onBlock (h : t.Carries b) (c : Block) (hc : AllFuncs (t.Makes b P) (c.nodes true)) :
    Yields b.Fresh (t.onBlock c) fun x => AllFuncs P (x.nodes true) := by
  match c with
  | ⟨id, stmts⟩ =>
    exact (h.onStmts stmts hc).bind fun a ha => (h.list P false a ha).bind fun b hb => .pure hb
termination_by structural c

theorem onBlock? (h : t.Carries b) (c : Option Block)
    (hc : AllFuncs (t.Makes b P) (blockNodes? true c)) :
    Yields b.Fresh (t.onBlock? c) fun x => AllFuncs P (blockNodes? true x) := by
  match c with
  | none => exact .pure allFuncs_nil
  | some c => exact (h.onBlock c hc).bind fun a ha => .pure ha
termination_by structural c

theorem onDeclarators (h : t.Carries b) (ds : List Declarator)
    (hds : AllFuncs (t.Makes b P) (declNodes true ds)) :
    Yields b.Fresh (t.onDeclarators ds) fun xs => AllFuncs P (declNodes true xs) := by
  match ds with
  | [] => exact .pure allFuncs_nil
  | ⟨id, name, init⟩ :: rest =>
    obtain ⟨hd, hrest⟩ := allFuncs_append.mp hds
    exact (h.onExpr? init ((allFuncs_name _).mp hd)).bind fun a ha =>
      (h.onDeclarators rest hrest).bind fun b hb =>
        .pure (allFuncs_append.mpr ⟨(allFuncs_name _).mpr ha, hb⟩)
termination_by structural ds

theorem onDecl (h : t.Carries b) (d : VarDecl)
    (hd : AllFuncs (t.Makes b P) (declNodes true d.decls)) :
    Yields b.Fresh (t.onDecl d) fun x => AllFuncs P (declNodes true x.decls) := by
  match d with
  | ⟨id, kind, decls⟩ => exact (h.onDeclarators decls hd).bind fun a ha => .pure ha
termination_by structural d

theorem onHead (h : t.Carries b) (head : ForHead) (role : Role)
    (hhead : AllFuncs (t.Makes b P) (head.nodes true)) :
    Yields b.Fresh (t.onHead head role) fun x =>
      AllFuncs P (x.nodes true) ∧ AllFuncs P (x.loopNodes true) := by
  match head with
  | .decl ⟨id, kind, decls⟩ =>
    refine (h.onDecl ⟨id, kind, decls⟩ ((allFuncs_decl _).mp hhead)).bind fun a ha => .pure ?_
    obtain ⟨id', kind', decls'⟩ := a
    exact ⟨(allFuncs_decl _).mpr ha, (allFuncs_loopDecl _).mpr ha⟩
  | .expr e => exact (h.onExpr e _ hhead).bind fun a ha => .pure ⟨ha, ha⟩
termination_by structural head

theorem onHead? (h : t.Carries b) (head : Option ForHead)
    (hhead : AllFuncs (t.Makes b P) (headNodes? true head)) :
    Yields b.Fresh (t.onHead? head) fun x => AllFuncs P (headNodes? true x) := by
  match head with
  | none => exact .pure allFuncs_nil
  | some head => exact (h.onHead head _ hhead).bind fun a ha => .pure ha.1
termination_by structural head

theorem onHandler? (h : t.Carries b) (c : Option CatchClause)
    (hc : AllFuncs (t.Makes b P) (handlerNodes? true c)) :
    Yields b.Fresh (t.onHandler? c) fun x => AllFuncs P (handlerNodes? true x) := by
  match c with
  | none => exact .pure allFuncs_nil
  | some ⟨id, param, body⟩ =>
    exact (h.onBlock body (allFuncs_append.mp hc).2).bind fun a ha =>
      .pure (allFuncs_append.mpr ⟨allFuncs_name? _, ha⟩)
termination_by structural c

theorem onParts (h : t.Carries b) (s : Stmt) (hs : AllFuncs (t.Makes b P) (s.nodes true)) :
    Yields b.Fresh (t.onParts s) fun x => AllFuncs P (x.nodes true) := by
  cases s with
  | block c => exact (h.onBlock c ((allFuncs_stmt _).mp hs)).bind fun a ha => .pure (by simpa using ha)
  | expr id e =>
    exact (h.onExpr e _ ((allFuncs_stmt _).mp hs)).bind fun a ha => .pure (by simpa using ha)
  | var d =>
    obtain ⟨id, kind, decls⟩ := d
    have hdecls := (allFuncs_decl _).mp ((allFuncs_stmt _).mp hs)
    refine (h.onDecl ⟨id, kind, decls⟩ hdecls).bind fun a ha => .pure ?_
    obtain ⟨id', kind', decls'⟩ := a
    exact (allFuncs_stmt _).mpr ((allFuncs_decl _).mpr ha)
  | function id name fn =>
    exact (h.onFunc fn ((allFuncs_name _).mp ((allFuncs_stmt _).mp hs))).bind fun a ha =>
      .pure ((allFuncs_stmt _).mpr ((allFuncs_name _).mpr ha))
  | «if» id test yes no =>
    obtain ⟨hfirst, hno⟩ := allFuncs_append.mp ((allFuncs_stmt _).mp hs)
    obtain ⟨htest, hyes⟩ := allFuncs_append.mp hfirst
    exact (h.onExpr test _ htest).bind fun a ha => (h.alone (h.onParts yes hyes)).bind fun b hb =>
      (h.onAlone? no hno).bind fun c hc => .pure (by simp [ha, hb, hc])
  | «for» id init test update body =>
    obtain ⟨hfirst, hbody⟩ := allFuncs_append.mp ((allFuncs_stmt _).mp hs)
    obtain ⟨hfirst, hupdate⟩ := allFuncs_append.mp hfirst
    obtain ⟨hinit, htest⟩ := allFuncs_append.mp hfirst
    exact (h.onHead? init hinit).bind fun a ha => (h.onExpr? test htest).bind fun b hb =>
      (h.onExpr? update hupdate).bind fun c hc => (h.alone (h.onParts body hbody)).bind fun d hd =>
        .pure (by simp [ha, hb, hc, hd])
  | forIn id head obj body =>
    obtain ⟨hfirst, hbody⟩ := allFuncs_append.mp ((allFuncs_stmt _).mp hs)
    obtain ⟨hhead, hobj⟩ := allFuncs_append.mp hfirst
    have hhead : AllFuncs (t.Makes b P) (head.nodes true) := by
      match head with
      | .decl ⟨id, kind, decls⟩ => exact (allFuncs_decl _).mpr ((allFuncs_loopDecl _).mp hhead)
      | .expr e => exact hhead
    exact (h.onHead head _ hhead).bind fun a ha => (h.onExpr obj _ hobj).bind fun b hb =>
      (h.alone (h.onParts body hbody)).bind fun c hc => .pure ((allFuncs_stmt _).mpr
        (allFuncs_append.mpr ⟨allFuncs_append.mpr ⟨ha.2, hb⟩, hc⟩))
  | «while» id test body =>
    obtain ⟨htest, hbody⟩ := allFuncs_append.mp ((allFuncs_stmt _).mp hs)
    exact (h.onExpr test _ htest).bind fun a ha => (h.alone (h.onParts body hbody)).bind fun b hb =>
      .pure (by simp [ha, hb])
  | doWhile id body test =>
    obtain ⟨hbody, htest⟩ := allFuncs_append.mp ((allFuncs_stmt _).mp hs)
    exact (h.alone (h.onParts body hbody)).bind fun b hb => (h.onExpr test _ htest).bind fun a ha =>
      .pure (by simp [ha, hb])
  | «return» id arg =>
    exact (h.onExpr? arg ((allFuncs_stmt _).mp hs)).bind fun a ha => .pure (by simpa using ha)
  | labeled id label body =>
    exact (h.alone (h.onParts body ((allFuncs_stmt _).mp hs))).bind fun a ha =>
      .pure (by simpa using ha)
  | throw id arg =>
    exact (h.onExpr arg _ ((allFuncs_stmt _).mp hs)).bind fun a ha => .pure (by simpa using ha)
  | «with» id obj body =>
    obtain ⟨hobj, hbody⟩ := allFuncs_append.mp ((allFuncs_stmt _).mp hs)
    exact (h.onExpr obj _ hobj).bind fun a ha => (h.alone (h.onParts body hbody)).bind fun b hb =>
      .pure (by simp [ha, hb])
  | «try» id block handler finalizer =>
    obtain ⟨hfirst, hfinalizer⟩ := allFuncs_append.mp ((allFuncs_stmt _).mp hs)
    obtain ⟨hblock, hhandler⟩ := allFuncs_append.mp hfirst
    exact (h.onBlock block hblock).bind fun a ha => (h.onHandler? handler hhandler).bind fun b hb =>
      (h.onBlock? finalizer hfinalizer).bind fun c hc => .pure ((allFuncs_stmt _).mpr
        (allFuncs_append.mpr ⟨allFuncs_append.mpr ⟨ha, hb⟩, hc⟩))
  | empty | «break» | «continue» => exact .pure (Makes.all hs)
termination_by structural s

theorem onAlone? (h : t.Carries b) (s : Option Stmt)
    (hs : AllFuncs (t.Makes b P) (stmtNodes? true s)) :
    Yields b.Fresh (t.onAlone? s) fun x => AllFuncs P (stmtNodes? true x) := by
  match s with
  | none => exact .pure allFuncs_nil
  | some s => exact (h.alone (h.onParts s hs)).bind fun a ha => .pure ha
termination_by structural s

theorem onStmts (h : t.Carries b) (ss : List Stmt)
    (hss : AllFuncs (t.Makes b P) (stmtNodes true ss)) :
    Yields b.Fresh (t.onStmts ss) fun xs => AllFuncs P (stmtNodes true xs) := by
  match ss with
  | [] => exact .pure allFuncs_nil
  | s :: rest =>
    obtain ⟨hs, hrest⟩ := allFuncs_append.mp hss
    refine (h.onParts s hs).bind fun after hafter => (h.stmt P .listed s after hafter).bind fun a ha =>
      (h.onStmts rest hrest).bind fun b hb => .pure ?_
    rw [allFuncs_stmtNodes, List.forall_mem_append]
    exact ⟨allFuncs_stmtNodes.mp ha, allFuncs_stmtNodes.mp hb⟩
termination_by structural ss

end

/-- Every function of a program after a change is one that was there before, or what became of
one. -/
theorem functions_run (h : t.Carries b) (src : Source) (taken : List String)
    (hstart : b.nextId ≤ src.nextId) {g : Func}
    (hg : g ∈ (t.run src taken).1.program.functions) :
    ∃ f ∈ src.program.functions, g = f ∨ ∃ s, b.Fresh s ∧ g = (t.onFunc f s).1 := by
  set P : Func → Prop := fun g =>
    ∃ f ∈ src.program.functions, g = f ∨ ∃ s, b.Fresh s ∧ g = (t.onFunc f s).1
  have hmakes : AllFuncs (t.Makes b P) (stmtNodes true src.program.body) := fun f hf =>
    have hmem : f ∈ src.program.functions := List.mem_filterMap.mpr ⟨.func f, hf, rfl⟩
    ⟨⟨f, hmem, .inl rfl⟩, fun s hs => ⟨f, hmem, .inr ⟨s, hs, rfl⟩⟩⟩
  have hprogram : Yields b.Fresh (t.onProgram src.program) fun p =>
      AllFuncs P (stmtNodes true p.body) :=
    (h.onStmts src.program.body hmakes).bind fun a ha =>
      (h.list P true a ha).bind fun b hb => .pure hb
  obtain ⟨n, hn, hfunc⟩ := List.mem_filterMap.mp hg
  cases n <;> cases hfunc
  exact (hprogram ⟨src.nextId, false, taken⟩ hstart).2 g hn

/-! ### Functions that stay -/

theorem id_onFunc (h : t.Carries b) (f : Func) (s : EditState) : (t.onFunc f s).1.id = f.id := by
  obtain ⟨id, params, ⟨bodyId, stmts⟩⟩ := f
  have hyields : Yields (fun _ => True) (t.onFunc ⟨id, params, ⟨bodyId, stmts⟩⟩) fun g =>
      g.id = id := by
    have htrue {α : Type} (x : Edit α) : Yields (fun _ => True) x fun _ => True :=
      fun _ _ => ⟨trivial, trivial⟩
    unfold Transform.onFunc
    split
    · exact .pure rfl
    · refine (htrue _).bind fun ss _ => (htrue _).bind fun xs _ => ?_
      rw [h.func]
      exact .pure rfl
  exact (hyields s trivial).2

/-- The functions that a list declares are declared by another list. -/
def Redeclares (ss xs : List Stmt) : Prop :=
  ∀ id name f, .function id name f ∈ ss → ∃ g, g.id = f.id ∧ .function id name g ∈ xs

theorem redeclares_onStmts (h : t.Carries b) (ss : List Stmt)
    (hss : AllFuncs (t.Makes b fun _ => True) (stmtNodes true ss)) :
    Yields b.Fresh (t.onStmts ss) (Redeclares ss) := by
  induction ss with
  | nil => exact .pure nofun
  | cons s rest ih =>
    obtain ⟨hs, hrest⟩ := allFuncs_append.mp hss
    have hhead : Yields b.Fresh (t.onParts s >>= t.stmt .listed s) (Redeclares [s]) := by
      cases s with
      | function id name f =>
        have hf : Yields b.Fresh (t.onFunc f) fun g => g.id = f.id := fun s' hs' =>
          ⟨(h.onFunc f ((allFuncs_name _).mp ((allFuncs_stmt _).mp hs)) s' hs').1, h.id_onFunc f s'⟩
        refine Yields.bind (P := fun x => ∃ g, g.id = f.id ∧ x = .function id name g)
          (hf.bind fun g hg => .pure ⟨g, hg, rfl⟩) ?_
        rintro _ ⟨g, hg, rfl⟩
        rw [h.declaration]
        refine .pure fun id' name' f' hf' => ?_
        cases List.mem_singleton.mp hf'
        exact ⟨g, hg, List.mem_singleton_self _⟩
      | _ =>
        refine (h.onParts _ hs).bind fun x hx => (h.stmt _ .listed _ x hx).imp fun _ _ => ?_
        exact fun id name f hf => nomatch List.mem_singleton.mp hf
    rw [Transform.onStmts, ← bind_assoc]
    refine hhead.bind fun xs hxs => (ih hrest).bind fun ys hys => .pure fun id name f hf => ?_
    rcases List.mem_cons.mp hf with rfl | hf
    · obtain ⟨g, hid, hg⟩ := hxs id name f (List.mem_singleton_self _)
      exact ⟨g, hid, List.mem_append_left _ hg⟩
    · obtain ⟨g, hid, hg⟩ := hys id name f hf
      exact ⟨g, hid, List.mem_append_right _ hg⟩

/-- A function that the program declares is declared by the program after a change. -/
theorem declared_run (h : t.Carries b) (src : Source) (taken : List String)
    (hstart : b.nextId ≤ src.nextId) {id : NodeId} {name : Ident} {f : Func}
    (hf : .function id name f ∈ src.program.body) :
    ∃ g ∈ (t.run src taken).1.program.functions, g.id = f.id := by
  have htrivial : AllFuncs (t.Makes b fun _ => True) (stmtNodes true src.program.body) :=
    fun _ _ => ⟨trivial, fun _ _ => trivial⟩
  have hprogram : Yields b.Fresh (t.onProgram src.program) fun p =>
      ∃ g, g.id = f.id ∧ .function id name g ∈ p.body :=
    (h.redeclares_onStmts _ htrivial).bind fun xs hxs =>
      have ⟨g, hid, hg⟩ := hxs id name f hf
      (h.declarations true xs id name g hg).bind fun ys hys => .pure ⟨g, hid, hys⟩
  obtain ⟨g, hid, hg⟩ := (hprogram ⟨src.nextId, false, taken⟩ hstart).2
  have hlisted : AllFuncs (.func · ∈ (t.run src taken).1.program.nodes)
      (t.run src taken).1.program.nodes := fun _ hmem => hmem
  have hnode := (allFuncs_stmtNodes.mp hlisted) _ hg g (by
    obtain ⟨gid, params, body⟩ := g
    simp)
  exact ⟨g, List.mem_filterMap.mpr ⟨.func g, hnode, rfl⟩, hid⟩

end Carries

end Transform

end EsOptimizer
