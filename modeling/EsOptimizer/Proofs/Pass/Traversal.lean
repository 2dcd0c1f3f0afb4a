import EsOptimizer.Proofs.Pass.Yields
import EsOptimizer.Pass.Literal
import EsOptimizer.Syntax.Transform

/-!
# Traversals that keep to the grammar

A traversal of a legal tree gives a legal tree, if its hooks do with what they are given: expressions
stay legal and targets stay targets, what takes the place of a statement may stand there, and a
function whose body may stand in a function becomes such a function.
-/

namespace EsOptimizer

attribute [local simp] Node.isLegal Expr.nodes elemNodes exprNodes exprNodes? PropertyKey.nodes
  Property.nodes propNodes Func.nodes Block.nodes blockNodes? Declarator.nodes declNodes VarDecl.nodes
  ForHead.nodes ForHead.loopNodes headNodes? CatchClause.nodes handlerNodes? Stmt.nodes stmtNodes?
  stmtNodes

/-! ## New nodes -/

section

variable {α : Type} {d : Demands} {P : α → Prop}

theorem Yields.new {f : NodeId → Edit α} (h : ∀ id, Yields d.Kept (f id) P) :
    Yields d.Kept (Edit.newId >>= f) P :=
  fun s hs => h s.nextId { s with nextId := s.nextId + 1 } hs

theorem Yields.named {name : String} {f : Ident → Edit α}
    (h : ∀ id, Yields d.Kept (f ⟨id, name⟩) P) : Yields d.Kept (Make.ident name >>= f) P :=
  .new h

theorem Yields.changed {x : Edit α} (h : Yields d.Kept x P) :
    Yields d.Kept (Edit.markChanged >>= fun _ => x) P :=
  fun s hs => h { s with changed := true } hs

theorem Copies.ofFresh {x : Fresh α} (h : Copies x P) : Yields d.Kept (Edit.ofFresh x) P :=
  fun s hs => ⟨hs, (h s.nextId trivial).2⟩

end

/-- The statements may together take the place of one that stands in `cx`. -/
def StandIn (cx : Surroundings) (ss : List Stmt) : Prop :=
  (∃ s, ss = [s] ∧ s.isPlaced cx = true) ∨ allPlaced cx.inside ss = true

theorem Surroundings.inside_eq {cx : Surroundings} (h : cx.own = none) : cx.inside = cx := by
  obtain ⟨inFunction, inLoop, labels, loops, own⟩ := cx
  cases h
  rfl

theorem Surroundings.loops_loop (cx : Surroundings) {labels : List String} (h : labels ⊆ cx.loops) :
    labels ⊆ cx.loop.loops :=
  List.Subset.trans h (List.subset_append_right _ _)

theorem StandIn.single {cx : Surroundings} {s : Stmt} (h : s.isPlaced cx = true) :
    StandIn cx [s] :=
  .inl ⟨s, rfl, h⟩

/-- In a list no statement has a label on it. -/
theorem StandIn.listed {cx : Surroundings} {ss : List Stmt} (h : StandIn cx ss)
    (hcx : cx.own = none) : allPlaced cx ss = true := by
  rcases h with ⟨s, rfl, hs⟩ | h
  · simp [allPlaced, hs]
  · rwa [Surroundings.inside_eq hcx] at h

namespace Make

variable {d : Demands}

theorem yields_number (n : Number) :
    Yields d.Kept (number n) fun e => AllLegal (e.nodes true) :=
  .new fun id => .pure (by simp)

theorem yields_unary (op : UnaryOp) {arg : Expr} (h : AllLegal (arg.nodes true)) :
    Yields d.Kept (unary op arg) fun e => AllLegal (e.nodes true) :=
  .new fun id => .pure (by simp [h])

theorem yields_undefined : Yields d.Kept undefined fun e => AllLegal (e.nodes true) :=
  (yields_number .zero).bind fun _ he => yields_unary .void he

theorem yields_assign (name : String) {value : Expr} (h : AllLegal (value.nodes true)) :
    Yields d.Kept (assign name value) fun e => AllLegal (e.nodes true) :=
  .named fun id => .new fun id' => .pure (by simp [Expr.isTarget, h])

theorem yields_pair {a b : Expr} (ha : AllLegal (a.nodes true)) (hb : AllLegal (b.nodes true)) :
    Yields d.Kept (seq [a, b]) fun e => AllLegal (e.nodes true) :=
  .new fun id => .pure (by simp [ha, hb])

theorem yields_magnitude (n : Number) :
    Yields d.Kept (magnitude n) fun e => AllLegal (e.nodes true) := by
  unfold magnitude
  split
  · exact .named fun id => .pure (by simp)
  · exact yields_number n

theorem yields_literal (p : Primitive) :
    Yields d.Kept (literal p) fun e => AllLegal (e.nodes true) := by
  cases p with
  | undefined => exact yields_undefined
  | number n =>
    rw [literal]
    split
    · exact .named fun id => .pure (by simp)
    · refine (yields_magnitude n.abs).bind fun size hsize => ?_
      split
      · exact yields_unary .minus hsize
      · exact .pure hsize
  | _ => exact .new fun id => .pure (by simp)

/-- A statement that may stand anywhere. -/
structure Free (s : Stmt) : Prop where
  legal : AllLegal (s.nodes true)
  placed : ∀ cx, s.isPlaced cx = true

theorem yields_expr {e : Expr} (h : AllLegal (e.nodes true)) :
    Yields d.Kept (expr e) Free :=
  .new fun id => .pure ⟨by simp [h], fun _ => rfl⟩

theorem yields_declarator (name : String) (init : Option Expr) (h : AllLegal (exprNodes? true init)) :
    Yields d.Kept (declarator name init) fun x => AllLegal (x.nodes true) :=
  .new fun id => .named fun id' => .pure (by simp [h])

theorem yields_declare (name : String) {value : Expr} (h : AllLegal (value.nodes true)) :
    Yields d.Kept (declare name value) Free :=
  .new fun id => (yields_declarator name (some value) h).bind fun x hx =>
    .pure ⟨by simp [hx], fun _ => rfl⟩

theorem allLegal_declNodes {ds : List Declarator} :
    AllLegal (declNodes true ds) ↔ ∀ x ∈ ds, AllLegal (x.nodes true) := by
  induction ds with
  | nil => simp
  | cons x rest ih => simp [-Declarator.nodes, ih]

theorem yields_vars {names : List String} (h : names ≠ []) : Yields d.Kept (vars names) Free := by
  refine .new fun id => (Yields.mapM (P := fun x => AllLegal (x.nodes true)) fun name _ =>
    yields_declarator name none allLegal_nil).bind fun ds hds => .pure ⟨?_, fun _ => rfl⟩
  have hne : ds.isEmpty = false := by
    rw [List.isEmpty_eq_false_iff, ← List.length_pos_iff, hds.1]
    exact List.length_pos_iff.mpr h
  simp [hne, allLegal_declNodes.mpr hds.2]

theorem yields_block (ss : List Stmt) (h : AllLegal (stmtNodes true ss)) :
    Yields d.Kept (block ss) fun s => AllLegal (s.nodes true) ∧
      ∀ cx, allPlaced cx.inside ss = true → s.isPlaced cx = true :=
  .new fun id => .pure ⟨by simp [h], fun _ hss => hss⟩

theorem yields_single (ss : List Stmt) (h : AllLegal (stmtNodes true ss)) :
    Yields d.Kept (single ss) fun s => AllLegal (s.nodes true) ∧
      ∀ cx, StandIn cx ss → s.isPlaced cx = true := by
  match ss with
  | [] => exact .new fun id => .pure ⟨by simp, fun _ _ => rfl⟩
  | [s] =>
    refine .pure ⟨by simpa using h, fun cx hs => ?_⟩
    rcases hs with ⟨s', hs', hplaced⟩ | hplaced
    · cases hs'
      exact hplaced
    · exact Stmt.isPlaced_of_inside (by simpa [allPlaced] using hplaced)
  | s :: s' :: rest =>
    refine (yields_block _ h).imp fun x hx => ⟨hx.1, fun cx hss => hx.2 cx (hss.resolve_left ?_)⟩
    rintro ⟨_, ⟨⟩, _⟩

end Make

/-! ## The traversal -/

/-- The same expression with other parts. -/
structure Expr.Rebuilt (before after : Expr) : Prop where
  id : after.id = before.id
  target : after.isTarget = before.isTarget
  name : ∀ i, after = .ident i → before = .ident i

namespace Transform

/-- The hooks make legal trees of legal parts. -/
structure KeepsLegal (t : Transform) (d : Demands) : Prop where
  expr : ∀ role e, AllLegal (e.nodes true) →
    Yields d.Kept (t.expr role e) fun x => AllLegal (x.nodes true)
  target : ∀ role before after, d.target before → before.Rebuilt after → after.isTarget = true →
    Yields d.Kept (t.expr role after) fun x => x.isTarget = true
  stmt : ∀ place before after, AllLegal (after.nodes true) →
    Yields d.Kept (t.stmt place before after) fun ss => AllLegal (stmtNodes true ss) ∧
      ∀ cx, d.loops ⊆ cx.loops → after.isPlaced cx = true → StandIn cx ss
  list : ∀ isBody ss, AllLegal (stmtNodes true ss) →
    Yields d.Kept (t.list isBody ss) fun xs => AllLegal (stmtNodes true xs) ∧
      ∀ cx, cx.own = none → allPlaced cx ss = true → allPlaced cx xs = true
  func : ∀ f, AllLegal (f.body.nodes true) → (∀ cx, d.body cx → f.body.isPlaced cx = true) →
    Yields d.Kept (t.func f) fun g => AllLegal (g.nodes true) ∧ g.params.length = f.params.length
  /-- The bodies of functions are in surroundings like these, if functions are entered. -/
  enters : t.enterFunctions = true → ∀ cx, d.body cx → cx.own = none ∧ d.loops ⊆ cx.loops

/-- An expression becomes another. -/
structure ExprKept (d : Demands) (e x : Expr) : Prop where
  legal : AllLegal (x.nodes true)
  target : e.isTarget = true → d.target e → x.isTarget = true

/-- A statement becomes another, which may stand where it may. -/
structure StmtKept (d : Demands) (s x : Stmt) : Prop where
  legal : AllLegal (x.nodes true)
  placed : ∀ cx, d.loops ⊆ cx.loops → s.isPlaced cx = true → x.isPlaced cx = true

namespace KeepsLegal

variable {t : Transform} {d : Demands}

theorem replaced (h : t.KeepsLegal d) (role : Role) {e : Expr} (he : AllLegal (e.nodes true))
    {parts : Edit Expr}
    (hparts : Yields d.Kept parts fun x => AllLegal (x.nodes true) ∧ e.Rebuilt x) :
    Yields d.Kept (t.replaced role e parts) (ExprKept d e) := by
  unfold Transform.replaced
  split
  · refine hparts.bind fun x hx => ?_
    by_cases htarget : e.isTarget = true ∧ d.target e
    · have hkept := h.target role e x htarget.2 hx.2 (hx.2.target.trans htarget.1)
      exact ((h.expr role x hx.1).and hkept).imp fun _ hy => ⟨hy.1, fun _ _ => hy.2⟩
    · exact (h.expr role x hx.1).imp fun _ hy => ⟨hy, fun h₁ h₂ => absurd ⟨h₁, h₂⟩ htarget⟩
  · exact .pure ⟨he, fun h _ => h⟩

/-- A statement that stands alone. -/
theorem alone (h : t.KeepsLegal d) {s : Stmt} (hs : Yields d.Kept (t.onParts s) (StmtKept d s)) :
    Yields d.Kept (t.onParts s >>= t.alone s) (StmtKept d s) :=
  hs.bind fun after hafter => (h.stmt .alone s after hafter.legal).bind fun ss hss =>
    (Make.yields_single ss hss.1).imp fun _ hx =>
      ⟨hx.1, fun cx hcx hplaced => hx.2 cx (hss.2 cx hcx (hafter.placed cx hcx hplaced))⟩

mutual

theorem onExpr (h : t.KeepsLegal d) (e : Expr) (role : Role) (he : AllMeet d (e.nodes true)) :
    Yields d.Kept (t.onExpr e role) (ExprKept d e) := by
  have hhead := he _ (e.mem_nodes true)
  unfold Transform.onExpr
  refine h.replaced role he.legal ?_
  cases e with
  | array id elems =>
    exact (h.onElems elems (allMeet_cons.mp he).2).bind fun a ha =>
      .pure ⟨by simp [ha], rfl, rfl, nofun⟩
  | object id props =>
    exact (h.onProps props (allMeet_cons.mp he).2).bind fun a ha =>
      .pure ⟨allLegal_cons.mpr ⟨ha.2.trans hhead.legal, ha.1⟩, rfl, rfl, nofun⟩
  | function id name fn =>
    exact (h.onFunc fn (allMeet_append.mp (allMeet_cons.mp he).2).2).bind fun a ha =>
      .pure ⟨allLegal_cons.mpr ⟨rfl, allLegal_append.mpr ⟨allLegal_name? _, ha.1⟩⟩, rfl, rfl, nofun⟩
  | unary id op arg =>
    exact (h.onExpr arg _ (allMeet_cons.mp he).2).bind fun a ha =>
      .pure ⟨by simp [ha.legal], rfl, rfl, nofun⟩
  | update id op before arg =>
    exact (h.onExpr arg _ (allMeet_cons.mp he).2).bind fun a ha => .pure ⟨allLegal_cons.mpr
      ⟨ha.target hhead.legal (hhead.target arg (if_pos hhead.legal)), ha.legal⟩, rfl, rfl, nofun⟩
  | binary id op left right =>
    obtain ⟨hleft, hright⟩ := allMeet_append.mp (allMeet_cons.mp he).2
    exact (h.onExpr left _ hleft).bind fun a ha => (h.onExpr right _ hright).bind fun b hb =>
      .pure ⟨by simp [ha.legal, hb.legal], rfl, rfl, nofun⟩
  | assign id op left right =>
    obtain ⟨hleft, hright⟩ := allMeet_append.mp (allMeet_cons.mp he).2
    exact (h.onExpr left _ hleft).bind fun a ha => (h.onExpr right _ hright).bind fun b hb =>
      .pure ⟨allLegal_cons.mpr ⟨ha.target hhead.legal (hhead.target left (if_pos hhead.legal)),
        allLegal_append.mpr ⟨ha.legal, hb.legal⟩⟩, rfl, rfl, nofun⟩
  | member id obj name =>
    exact (h.onExpr obj _ (allMeet_cons.mp he).2).bind fun a ha =>
      .pure ⟨by simp [ha.legal], rfl, rfl, nofun⟩
  | index id obj key =>
    obtain ⟨hobj, hkey⟩ := allMeet_append.mp (allMeet_cons.mp he).2
    exact (h.onExpr obj _ hobj).bind fun a ha => (h.onExpr key _ hkey).bind fun b hb =>
      .pure ⟨by simp [ha.legal, hb.legal], rfl, rfl, nofun⟩
  | cond id test yes no =>
    obtain ⟨hfirst, hno⟩ := allMeet_append.mp (allMeet_cons.mp he).2
    obtain ⟨htest, hyes⟩ := allMeet_append.mp hfirst
    exact (h.onExpr test _ htest).bind fun a ha => (h.onExpr yes _ hyes).bind fun b hb =>
      (h.onExpr no _ hno).bind fun c hc =>
        .pure ⟨by simp [ha.legal, hb.legal, hc.legal], rfl, rfl, nofun⟩
  | call id callee args =>
    obtain ⟨hcallee, hargs⟩ := allMeet_append.mp (allMeet_cons.mp he).2
    exact (h.onExpr callee _ hcallee).bind fun a ha => (h.onExprs args hargs).bind fun b hb =>
      .pure ⟨by simp [ha.legal, hb.1], rfl, rfl, nofun⟩
  | new id callee args =>
    obtain ⟨hcallee, hargs⟩ := allMeet_append.mp (allMeet_cons.mp he).2
    exact (h.onExpr callee _ hcallee).bind fun a ha => (h.onExprs args hargs).bind fun b hb =>
      .pure ⟨by simp [ha.legal, hb.1], rfl, rfl, nofun⟩
  | seq id exprs =>
    refine (h.onExprs exprs (allMeet_cons.mp he).2).bind fun a ha =>
      .pure ⟨allLegal_cons.mpr ⟨?_, ha.1⟩, rfl, rfl, nofun⟩
    rw [Node.isLegal, ha.2]
    exact hhead.legal
  | _ => exact .pure ⟨he.legal, rfl, rfl, fun _ hi => hi⟩
termination_by structural e

theorem onElems (h : t.KeepsLegal d) (es : List (Option Expr)) (hes : AllMeet d (elemNodes true es)) :
    Yields d.Kept (t.onElems es) fun xs => AllLegal (elemNodes true xs) := by
  match es with
  | [] => exact .pure allLegal_nil
  | none :: rest => exact (h.onElems rest hes).bind fun a ha => .pure ha
  | some e :: rest =>
    obtain ⟨he, hrest⟩ := allMeet_append.mp hes
    exact (h.onExpr e _ he).bind fun a ha => (h.onElems rest hrest).bind fun b hb =>
      .pure (allLegal_append.mpr ⟨ha.legal, hb⟩)
termination_by structural es

theorem onExprs (h : t.KeepsLegal d) (es : List Expr) (hes : AllMeet d (exprNodes true es)) :
    Yields d.Kept (t.onExprs es) fun xs =>
      AllLegal (exprNodes true xs) ∧ xs.length = es.length := by
  match es with
  | [] => exact .pure ⟨allLegal_nil, rfl⟩
  | e :: rest =>
    obtain ⟨he, hrest⟩ := allMeet_append.mp hes
    exact (h.onExpr e _ he).bind fun a ha => (h.onExprs rest hrest).bind fun b hb =>
      .pure ⟨allLegal_append.mpr ⟨ha.legal, hb.1⟩, congrArg (· + 1) hb.2⟩
termination_by structural es

theorem onExpr? (h : t.KeepsLegal d) (e : Option Expr) (he : AllMeet d (exprNodes? true e)) :
    Yields d.Kept (t.onExpr? e) fun x =>
      AllLegal (exprNodes? true x) ∧ x.isNone = e.isNone := by
  match e with
  | none => exact .pure ⟨allLegal_nil, rfl⟩
  | some e => exact (h.onExpr e _ he).bind fun a ha => .pure ⟨ha.legal, rfl⟩
termination_by structural e

theorem onKey (h : t.KeepsLegal d) (key : PropertyKey) (hkey : AllMeet d (key.nodes true)) :
    Yields d.Kept (t.onKey key) fun x => AllLegal (x.nodes true) := by
  match key with
  | .computed e => exact (h.onExpr e _ hkey).bind fun a ha => .pure ha.legal
  | .ident _ | .string _ _ | .number _ _ => exact .pure allLegal_nil
termination_by structural key

theorem onProperty (h : t.KeepsLegal d) (p : Property) (hp : AllMeet d (p.nodes true)) :
    Yields d.Kept (t.onProperty p) fun x => AllLegal (x.nodes true) ∧ x.isLegal = p.isLegal := by
  match p with
  | .value id key value =>
    obtain ⟨hkey, hvalue⟩ := allMeet_append.mp hp
    exact (h.onKey key hkey).bind fun a ha => (h.onExpr value _ hvalue).bind fun b hb =>
      .pure ⟨allLegal_append.mpr ⟨ha, hb.legal⟩, rfl⟩
  | .getter id key fn =>
    obtain ⟨hkey, hfn⟩ := allMeet_append.mp hp
    exact (h.onKey key hkey).bind fun a ha => (h.onFunc fn hfn).bind fun b hb =>
      .pure ⟨allLegal_append.mpr ⟨ha, hb.1⟩, congrArg (· == 0) hb.2⟩
  | .setter id key fn =>
    obtain ⟨hkey, hfn⟩ := allMeet_append.mp hp
    exact (h.onKey key hkey).bind fun a ha => (h.onFunc fn hfn).bind fun b hb =>
      .pure ⟨allLegal_append.mpr ⟨ha, hb.1⟩, congrArg (· == 1) hb.2⟩
termination_by structural p

theorem onProps (h : t.KeepsLegal d) (ps : List Property) (hps : AllMeet d (propNodes true ps)) :
    Yields d.Kept (t.onProps ps) fun xs =>
      AllLegal (propNodes true xs) ∧ xs.all Property.isLegal = ps.all Property.isLegal := by
  match ps with
  | [] => exact .pure ⟨allLegal_nil, rfl⟩
  | p :: rest =>
    obtain ⟨hp, hrest⟩ := allMeet_append.mp hps
    exact (h.onProperty p hp).bind fun a ha => (h.onProps rest hrest).bind fun b hb =>
      .pure ⟨allLegal_append.mpr ⟨ha.1, hb.1⟩, congrArg₂ (· && ·) ha.2 hb.2⟩
termination_by structural ps

theorem onFunc (h : t.KeepsLegal d) (f : Func) (hf : AllMeet d (f.nodes true)) :
    Yields d.Kept (t.onFunc f) fun g =>
      AllLegal (g.nodes true) ∧ g.params.length = f.params.length := by
  match f with
  | ⟨id, params, ⟨bodyId, stmts⟩⟩ =>
    obtain ⟨hhead, hparts⟩ := allMeet_cons.mp hf
    unfold Transform.onFunc
    split
    · exact .pure ⟨hf.legal, rfl⟩
    · rename_i henters
      have henters := h.enters (by simpa using henters)
      refine (h.onStmts stmts (allMeet_append.mp hparts).2).bind fun a ha =>
        (h.list true a ha.1).bind fun b hb => h.func _ hb.1 fun cx hcx => ?_
      obtain ⟨hown, hloops⟩ := henters cx hcx
      exact hb.2 cx hown (ha.2 cx hown hloops (hhead.body _ rfl cx hcx))
termination_by structural f

theorem onBlock (h : t.KeepsLegal d) (b : Block) (hb : AllMeet d (b.nodes true)) :
    Yields d.Kept (t.onBlock b) fun x => AllLegal (x.nodes true) ∧ ∀ cx, cx.own = none →
      d.loops ⊆ cx.loops → b.isPlaced cx = true → x.isPlaced cx = true := by
  match b with
  | ⟨id, stmts⟩ =>
    exact (h.onStmts stmts hb).bind fun a ha => (h.list false a ha.1).bind fun x hx =>
      .pure ⟨hx.1, fun cx hown hcx hplaced => hx.2 cx hown (ha.2 cx hown hcx hplaced)⟩
termination_by structural b

theorem onBlock? (h : t.KeepsLegal d) (b : Option Block) (hb : AllMeet d (blockNodes? true b)) :
    Yields d.Kept (t.onBlock? b) fun x => AllLegal (blockNodes? true x) ∧ x.isSome = b.isSome ∧
      ∀ cx, cx.own = none → d.loops ⊆ cx.loops → blockPlaced? cx b = true →
        blockPlaced? cx x = true := by
  match b with
  | none => exact .pure ⟨allLegal_nil, rfl, fun _ _ _ h => h⟩
  | some b => exact (h.onBlock b hb).bind fun a ha => .pure ⟨ha.1, rfl, ha.2⟩
termination_by structural b

theorem onDeclarators (h : t.KeepsLegal d) (ds : List Declarator)
    (hds : AllMeet d (declNodes true ds)) :
    Yields d.Kept (t.onDeclarators ds) fun xs => AllLegal (declNodes true xs) ∧
      xs.map (·.init.isNone) = ds.map (·.init.isNone) := by
  match ds with
  | [] => exact .pure ⟨allLegal_nil, rfl⟩
  | ⟨id, name, init⟩ :: rest =>
    obtain ⟨hfirst, hrest⟩ := allMeet_append.mp hds
    exact (h.onExpr? init (allMeet_cons.mp hfirst).2).bind fun a ha =>
      (h.onDeclarators rest hrest).bind fun b hb =>
        .pure ⟨allLegal_append.mpr ⟨allLegal_cons.mpr ⟨rfl, ha.1⟩, hb.1⟩,
          congrArg₂ List.cons ha.2 hb.2⟩
termination_by structural ds

theorem onDecl (h : t.KeepsLegal d) (x : VarDecl) (hx : AllMeet d (declNodes true x.decls)) :
    Yields d.Kept (t.onDecl x) fun y => AllLegal (declNodes true y.decls) ∧
      (Node.decl y).isLegal = (Node.decl x).isLegal ∧
      (Node.loopDecl y).isLegal = (Node.loopDecl x).isLegal := by
  match x with
  | ⟨id, kind, decls⟩ =>
    exact (h.onDeclarators decls hx).bind fun a ha => .pure ⟨ha.1, VarDecl.isLegal_congr ha.2⟩
termination_by structural x

theorem onHead? (h : t.KeepsLegal d) (head : Option ForHead)
    (hhead : AllMeet d (headNodes? true head)) :
    Yields d.Kept (t.onHead? head) fun x => AllLegal (headNodes? true x) := by
  match head with
  | none => exact .pure allLegal_nil
  | some (.decl ⟨id, kind, decls⟩) =>
    obtain ⟨hdecl, hdecls⟩ := allMeet_cons.mp hhead
    refine Yields.bind (P := fun x : ForHead => AllLegal (x.nodes true)) ?_ fun a ha => .pure ha
    refine (h.onDecl ⟨id, kind, decls⟩ hdecls).bind fun a ha => .pure ?_
    obtain ⟨id', kind', decls'⟩ := a
    exact allLegal_cons.mpr ⟨ha.2.1.trans hdecl.legal, ha.1⟩
  | some (.expr e) =>
    refine Yields.bind (P := fun x : ForHead => AllLegal (x.nodes true)) ?_ fun a ha => .pure ha
    exact (h.onExpr e _ hhead).bind fun a ha => .pure ha.legal
termination_by structural head

/-- What a `for-in` loop assigns to can be assigned to. -/
theorem onLoopHead (h : t.KeepsLegal d) (head : ForHead) (hhead : AllMeet d (head.loopNodes true)) :
    Yields d.Kept (t.onHead head .loopTarget) fun x => AllLegal (x.loopNodes true) ∧
      ∀ {id obj body id' obj' body'}, (Node.stmt (.forIn id head obj body)).Meets d →
        (Node.stmt (.forIn id' x obj' body')).isLegal = true := by
  match head with
  | .decl ⟨id, kind, decls⟩ =>
    obtain ⟨hdecl, hdecls⟩ := allMeet_cons.mp hhead
    refine (h.onDecl ⟨id, kind, decls⟩ hdecls).bind fun a ha => .pure ⟨?_, fun _ => rfl⟩
    obtain ⟨id', kind', decls'⟩ := a
    exact allLegal_cons.mpr ⟨ha.2.2.trans hdecl.legal, ha.1⟩
  | .expr e =>
    exact (h.onExpr e _ hhead).bind fun a ha =>
      .pure ⟨ha.legal, fun hloop => ha.target hloop.legal (hloop.target e (if_pos hloop.legal))⟩
termination_by structural head

theorem onHandler? (h : t.KeepsLegal d) (c : Option CatchClause)
    (hc : AllMeet d (handlerNodes? true c)) :
    Yields d.Kept (t.onHandler? c) fun x => AllLegal (handlerNodes? true x) ∧ x.isSome = c.isSome ∧
      ∀ cx, cx.own = none → d.loops ⊆ cx.loops → handlerPlaced? cx c = true →
        handlerPlaced? cx x = true := by
  match c with
  | none => exact .pure ⟨allLegal_nil, rfl, fun _ _ _ h => h⟩
  | some ⟨id, param, body⟩ =>
    exact (h.onBlock body (allMeet_append.mp hc).2).bind fun a ha =>
      .pure ⟨allLegal_append.mpr ⟨allLegal_name? _, ha.1⟩, rfl, ha.2⟩
termination_by structural c

theorem onParts (h : t.KeepsLegal d) (s : Stmt) (hs : AllMeet d (s.nodes true)) :
    Yields d.Kept (t.onParts s) (StmtKept d s) := by
  have hhead := hs _ (s.mem_nodes true)
  cases s with
  | block b =>
    exact (h.onBlock b (allMeet_cons.mp hs).2).bind fun a ha =>
      .pure ⟨by simp [ha.1], fun cx hcx => ha.2 cx.inside rfl hcx⟩
  | expr id e =>
    exact (h.onExpr e _ (allMeet_cons.mp hs).2).bind fun a ha =>
      .pure ⟨by simp [ha.legal], fun _ _ _ => rfl⟩
  | var x =>
    obtain ⟨id, kind, decls⟩ := x
    obtain ⟨hdecl, hdecls⟩ := allMeet_cons.mp (allMeet_cons.mp hs).2
    refine (h.onDecl ⟨id, kind, decls⟩ hdecls).bind fun a ha => .pure ⟨?_, fun _ _ _ => rfl⟩
    obtain ⟨id', kind', decls'⟩ := a
    exact allLegal_cons.mpr ⟨rfl, allLegal_cons.mpr ⟨ha.2.1.trans hdecl.legal, ha.1⟩⟩
  | function id name fn =>
    obtain ⟨-, hfn⟩ := allMeet_cons.mp (allMeet_cons.mp hs).2
    exact (h.onFunc fn hfn).bind fun a ha => .pure
      ⟨allLegal_cons.mpr ⟨rfl, allLegal_cons.mpr ⟨rfl, ha.1⟩⟩, fun _ _ _ => rfl⟩
  | «if» id test yes no =>
    obtain ⟨hfirst, hno⟩ := allMeet_append.mp (allMeet_cons.mp hs).2
    obtain ⟨htest, hyes⟩ := allMeet_append.mp hfirst
    refine (h.onExpr test _ htest).bind fun a ha => (h.alone (h.onParts yes hyes)).bind fun b hb =>
      (h.onAlone? no hno).bind fun c hc =>
        .pure ⟨by simp [ha.legal, hb.legal, hc.1], fun cx hcx hplaced => ?_⟩
    rw [Stmt.isPlaced, Bool.and_eq_true] at hplaced ⊢
    exact ⟨hb.placed _ hcx hplaced.1, hc.2 _ hcx hplaced.2⟩
  | «for» id init test update body =>
    obtain ⟨hfirst, hbody⟩ := allMeet_append.mp (allMeet_cons.mp hs).2
    obtain ⟨hfirst, hupdate⟩ := allMeet_append.mp hfirst
    obtain ⟨hinit, htest⟩ := allMeet_append.mp hfirst
    exact (h.onHead? init hinit).bind fun a ha => (h.onExpr? test htest).bind fun b hb =>
      (h.onExpr? update hupdate).bind fun c hc => (h.alone (h.onParts body hbody)).bind fun x hx =>
        .pure ⟨by simp [ha, hb.1, hc.1, hx.legal], fun cx hcx => hx.placed cx.loop (cx.loops_loop hcx)⟩
  | forIn id head obj body =>
    obtain ⟨hfirst, hbody⟩ := allMeet_append.mp (allMeet_cons.mp hs).2
    obtain ⟨hloop, hobj⟩ := allMeet_append.mp hfirst
    exact (h.onLoopHead head hloop).bind fun a ha => (h.onExpr obj _ hobj).bind fun b hb =>
      (h.alone (h.onParts body hbody)).bind fun x hx => .pure
        ⟨allLegal_cons.mpr ⟨ha.2 hhead, allLegal_append.mpr
          ⟨allLegal_append.mpr ⟨ha.1, hb.legal⟩, hx.legal⟩⟩,
          fun cx hcx => hx.placed cx.loop (cx.loops_loop hcx)⟩
  | «while» id test body =>
    obtain ⟨htest, hbody⟩ := allMeet_append.mp (allMeet_cons.mp hs).2
    exact (h.onExpr test _ htest).bind fun a ha => (h.alone (h.onParts body hbody)).bind fun x hx =>
      .pure ⟨by simp [ha.legal, hx.legal], fun cx hcx => hx.placed cx.loop (cx.loops_loop hcx)⟩
  | doWhile id body test =>
    obtain ⟨hbody, htest⟩ := allMeet_append.mp (allMeet_cons.mp hs).2
    exact (h.alone (h.onParts body hbody)).bind fun x hx => (h.onExpr test _ htest).bind fun a ha =>
      .pure ⟨by simp [ha.legal, hx.legal], fun cx hcx => hx.placed cx.loop (cx.loops_loop hcx)⟩
  | «return» id arg =>
    exact (h.onExpr? arg (allMeet_cons.mp hs).2).bind fun a ha =>
      .pure ⟨by simp [ha.1], fun _ _ hplaced => hplaced⟩
  | labeled id label body =>
    refine (h.alone (h.onParts body (allMeet_cons.mp hs).2)).bind fun x hx =>
      .pure ⟨by simp [hx.legal], fun cx hcx hplaced => ?_⟩
    rw [Stmt.isPlaced, Bool.and_eq_true] at hplaced ⊢
    exact ⟨hplaced.1, hx.placed _ hcx hplaced.2⟩
  | throw id arg =>
    exact (h.onExpr arg _ (allMeet_cons.mp hs).2).bind fun a ha =>
      .pure ⟨by simp [ha.legal], fun _ _ _ => rfl⟩
  | «with» id obj body =>
    obtain ⟨hobj, hbody⟩ := allMeet_append.mp (allMeet_cons.mp hs).2
    exact (h.onExpr obj _ hobj).bind fun a ha => (h.alone (h.onParts body hbody)).bind fun x hx =>
      .pure ⟨by simp [ha.legal, hx.legal], fun cx hcx => hx.placed cx.inside hcx⟩
  | «try» id block handler finalizer =>
    obtain ⟨hfirst, hfinalizer⟩ := allMeet_append.mp (allMeet_cons.mp hs).2
    obtain ⟨hblock, hhandler⟩ := allMeet_append.mp hfirst
    refine (h.onBlock block hblock).bind fun a ha => (h.onHandler? handler hhandler).bind fun b hb =>
      (h.onBlock? finalizer hfinalizer).bind fun c hc => .pure ⟨allLegal_cons.mpr ⟨?_,
        allLegal_append.mpr ⟨allLegal_append.mpr ⟨ha.1, hb.1⟩, hc.1⟩⟩, fun cx hcx hplaced => ?_⟩
    · rw [Node.isLegal, hb.2.1, hc.2.1]
      exact hhead.legal
    · simp only [Stmt.isPlaced, Bool.and_eq_true] at hplaced ⊢
      exact ⟨⟨ha.2 _ rfl hcx hplaced.1.1, hb.2.2 _ rfl hcx hplaced.1.2⟩,
        hc.2.2 _ rfl hcx hplaced.2⟩
  | empty | «break» | «continue» => exact .pure ⟨hs.legal, fun _ _ hplaced => hplaced⟩
termination_by structural s

theorem onAlone? (h : t.KeepsLegal d) (s : Option Stmt) (hs : AllMeet d (stmtNodes? true s)) :
    Yields d.Kept (t.onAlone? s) fun x => AllLegal (stmtNodes? true x) ∧
      ∀ cx, d.loops ⊆ cx.loops → isPlaced? cx s = true → isPlaced? cx x = true := by
  match s with
  | none => exact .pure ⟨allLegal_nil, fun _ _ h => h⟩
  | some s => exact (h.alone (h.onParts s hs)).bind fun a ha => .pure ⟨ha.legal, ha.placed⟩
termination_by structural s

theorem onStmts (h : t.KeepsLegal d) (ss : List Stmt) (hss : AllMeet d (stmtNodes true ss)) :
    Yields d.Kept (t.onStmts ss) fun xs => AllLegal (stmtNodes true xs) ∧ ∀ cx, cx.own = none →
      d.loops ⊆ cx.loops → allPlaced cx ss = true → allPlaced cx xs = true := by
  match ss with
  | [] => exact .pure ⟨allLegal_nil, fun _ _ _ h => h⟩
  | s :: rest =>
    obtain ⟨hs, hrest⟩ := allMeet_append.mp hss
    refine (h.onParts s hs).bind fun after hafter =>
      (h.stmt .listed s after hafter.legal).bind fun a ha =>
        (h.onStmts rest hrest).bind fun b hb => .pure ⟨?_, fun cx hown hcx hplaced => ?_⟩
    · rw [allLegal_stmtNodes, List.forall_mem_append]
      exact ⟨allLegal_stmtNodes.mp ha.1, allLegal_stmtNodes.mp hb.1⟩
    · rw [allPlaced, Bool.and_eq_true] at hplaced
      rw [allPlaced_iff, List.forall_mem_append, ← allPlaced_iff, ← allPlaced_iff]
      exact ⟨(ha.2 cx hcx (hafter.placed cx hcx hplaced.1)).listed hown, hb.2 cx hown hcx hplaced.2⟩
termination_by structural ss

end

end KeepsLegal

end Transform

end EsOptimizer
