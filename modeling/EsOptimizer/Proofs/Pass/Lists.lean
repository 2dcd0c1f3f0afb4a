import EsOptimizer.Proofs.Pass.Yields
import EsOptimizer.Syntax.Transform

/-!
# Lists of statements

`Program.lists` are the lists of statements in a program, each with whether it is the body of a
function or of the program itself. A change that has no hook but the one for lists (`onLists`) is a
matter of these alone: it leaves a program alone if the hook leaves its lists alone
(`Spares.onProgram`), and afterwards all lists have the property that the hook gives to each of them
(`Establishes.onProgram`). The hook sees a list when its members are done, and may take members
apart, so it has to answer for the lists inside its result too.
-/

namespace EsOptimizer

/-- The lists of statements right below a node. -/
def Node.lists : Node → List (Bool × List Stmt)
  | .stmt (.block b) => [(false, b.stmts)]
  | .stmt (.try _ block handler finalizer) =>
    (false, block.stmts) :: handler.toList.map (fun c => (false, c.body.stmts)) ++
      finalizer.toList.map fun b => (false, b.stmts)
  | .func fn => [(true, fn.body.stmts)]
  | _ => []

/-- All lists of statements in a program, each with whether it is a body. -/
def Program.lists (p : Program) : List (Bool × List Stmt) :=
  (true, p.body) :: p.nodes.flatMap Node.lists

/-- The lists right below the nodes have the property. -/
def ListsHave (P : Bool → List Stmt → Prop) (ns : List Node) : Prop :=
  ∀ n ∈ ns, ∀ l ∈ n.lists, P l.1 l.2

section

variable {P : Bool → List Stmt → Prop} {n : Node} {ns ms : List Node}

@[simp] theorem listsHave_nil : ListsHave P [] := nofun

@[simp] theorem listsHave_cons :
    ListsHave P (n :: ns) ↔ (∀ l ∈ n.lists, P l.1 l.2) ∧ ListsHave P ns :=
  List.forall_mem_cons

@[simp] theorem listsHave_append : ListsHave P (ns ++ ms) ↔ ListsHave P ns ∧ ListsHave P ms :=
  List.forall_mem_append

@[simp] theorem listsHave_name? (name : Option Ident) : ListsHave P (Node.name? name) := by
  cases name <;> simp [Node.name?, Node.lists]

@[simp] theorem listsHave_names (is : List Ident) : ListsHave P (is.map .name) := by
  simp [ListsHave, Node.lists]

theorem listsHave_stmtNodes {ss : List Stmt} :
    ListsHave P (stmtNodes true ss) ↔ ∀ s ∈ ss, ListsHave P (s.nodes true) := by
  induction ss with
  | nil => simp [stmtNodes]
  | cons s rest ih => simp [stmtNodes, ih]

theorem Program.forall_lists {p : Program} :
    (∀ l ∈ p.lists, P l.1 l.2) ↔ P true p.body ∧ ListsHave P p.nodes := by
  rw [lists, List.forall_mem_cons]
  refine and_congr_right' ⟨fun h n hn l hl => h l (List.mem_flatMap.mpr ⟨n, hn, hl⟩), ?_⟩
  intro h l hl
  obtain ⟨n, hn, hl⟩ := List.mem_flatMap.mp hl
  exact h n hn l hl

end

attribute [local simp] Node.lists Expr.nodes elemNodes exprNodes exprNodes? PropertyKey.nodes
  Property.nodes propNodes Func.nodes Block.nodes blockNodes? Declarator.nodes declNodes VarDecl.nodes
  ForHead.nodes ForHead.loopNodes headNodes? CatchClause.nodes handlerNodes? Stmt.nodes stmtNodes?
  stmtNodes

namespace Transform

/-- The change that does `f` to all lists of statements, and nothing else. -/
def onLists (f : Bool → List Stmt → Edit (List Stmt)) : Transform where
  list := f

variable {f : Bool → List Stmt → Edit (List Stmt)} {P : Bool → List Stmt → Prop}

/-- Nothing is done to an expression beside its parts. -/
theorem replaced_onLists (role : Role) (e : Expr) (parts : Edit Expr) :
    (onLists f).replaced role e parts = parts := by
  simp [replaced, onLists]

theorem alone_onLists (before after : Stmt) : (onLists f).alone before after = pure after := by
  simp [alone, onLists, Make.single]

/-! ## Lists that are left alone -/

/-- The hook leaves alone what has the property. -/
def Spares (f : Bool → List Stmt → Edit (List Stmt)) (P : Bool → List Stmt → Prop) : Prop :=
  ∀ isBody ss, P isBody ss → f isBody ss = pure ss

namespace Spares

mutual

theorem onExpr (h : Spares f P) (e : Expr) (role : Role) (he : ListsHave P (e.nodes true)) :
    (onLists f).onExpr e role = pure e := by
  unfold Transform.onExpr
  rw [replaced_onLists]
  cases e with
  | array id elems => simp [h.onElems elems (by simpa using he)]
  | object id props => simp [h.onProps props (by simpa using he)]
  | function id name fn => simp [h.onFunc fn (by simpa using he)]
  | unary id op arg => simp [h.onExpr arg _ (by simpa using he)]
  | update id op before arg => simp [h.onExpr arg _ (by simpa using he)]
  | binary id op left right =>
    have hparts : ListsHave P (left.nodes true) ∧ ListsHave P (right.nodes true) := by simpa using he
    simp [h.onExpr left _ hparts.1, h.onExpr right _ hparts.2]
  | assign id op left right =>
    have hparts : ListsHave P (left.nodes true) ∧ ListsHave P (right.nodes true) := by simpa using he
    simp [h.onExpr left _ hparts.1, h.onExpr right _ hparts.2]
  | member id obj name => simp [h.onExpr obj _ (by simpa using he)]
  | index id obj key =>
    have hparts : ListsHave P (obj.nodes true) ∧ ListsHave P (key.nodes true) := by simpa using he
    simp [h.onExpr obj _ hparts.1, h.onExpr key _ hparts.2]
  | cond id test yes no =>
    have hparts : ListsHave P (test.nodes true) ∧ ListsHave P (yes.nodes true) ∧
      ListsHave P (no.nodes true) := by simpa [and_assoc] using he
    simp [h.onExpr test _ hparts.1, h.onExpr yes _ hparts.2.1,
      h.onExpr no _ hparts.2.2]
  | call id callee args =>
    have hparts : ListsHave P (callee.nodes true) ∧ ListsHave P (exprNodes true args) := by
      simpa using he
    simp [h.onExpr callee _ hparts.1, h.onExprs args hparts.2]
  | new id callee args =>
    have hparts : ListsHave P (callee.nodes true) ∧ ListsHave P (exprNodes true args) := by
      simpa using he
    simp [h.onExpr callee _ hparts.1, h.onExprs args hparts.2]
  | seq id exprs => simp [h.onExprs exprs (by simpa using he)]
  | _ => rfl
termination_by structural e

theorem onElems (h : Spares f P) (es : List (Option Expr)) (hes : ListsHave P (elemNodes true es)) :
    (onLists f).onElems es = pure es := by
  match es with
  | [] => rfl
  | none :: rest => simp [Transform.onElems, h.onElems rest (by simpa using hes)]
  | some e :: rest =>
    rw [elemNodes, listsHave_append] at hes
    simp [Transform.onElems, h.onExpr e _ hes.1, h.onElems rest hes.2]
termination_by structural es

theorem onExprs (h : Spares f P) (es : List Expr) (hes : ListsHave P (exprNodes true es)) :
    (onLists f).onExprs es = pure es := by
  match es with
  | [] => rfl
  | e :: rest =>
    rw [exprNodes, listsHave_append] at hes
    simp [Transform.onExprs, h.onExpr e _ hes.1, h.onExprs rest hes.2]
termination_by structural es

theorem onExpr? (h : Spares f P) (e : Option Expr) (he : ListsHave P (exprNodes? true e)) :
    (onLists f).onExpr? e = pure e := by
  match e with
  | none => rfl
  | some e => simp [Transform.onExpr?, h.onExpr e _ he]
termination_by structural e

theorem onKey (h : Spares f P) (key : PropertyKey) (hkey : ListsHave P (key.nodes true)) :
    (onLists f).onKey key = pure key := by
  match key with
  | .computed e => simp [Transform.onKey, h.onExpr e _ hkey]
  | .ident _ | .string _ _ | .number _ _ => rfl
termination_by structural key

theorem onProperty (h : Spares f P) (p : Property) (hp : ListsHave P (p.nodes true)) :
    (onLists f).onProperty p = pure p := by
  match p with
  | .value id key value =>
    rw [Property.nodes, listsHave_append] at hp
    simp [Transform.onProperty, h.onKey key hp.1, h.onExpr value _ hp.2]
  | .getter id key fn | .setter id key fn =>
    rw [Property.nodes, listsHave_append] at hp
    simp [Transform.onProperty, h.onKey key hp.1, h.onFunc fn hp.2]
termination_by structural p

theorem onProps (h : Spares f P) (ps : List Property) (hps : ListsHave P (propNodes true ps)) :
    (onLists f).onProps ps = pure ps := by
  match ps with
  | [] => rfl
  | p :: rest =>
    rw [propNodes, listsHave_append] at hps
    simp [Transform.onProps, h.onProperty p hps.1, h.onProps rest hps.2]
termination_by structural ps

theorem onFunc (h : Spares f P) (fn : Func) (hfn : ListsHave P (fn.nodes true)) :
    (onLists f).onFunc fn = pure fn := by
  match fn with
  | ⟨id, params, ⟨bodyId, stmts⟩⟩ =>
    have hparts : P true stmts ∧ ListsHave P (stmtNodes true stmts) := by simpa using hfn
    have hlist : (onLists f).list true stmts = pure stmts := h true stmts hparts.1
    simp [Transform.onFunc, h.onStmts stmts hparts.2, hlist]
    simp [onLists]
termination_by structural fn

theorem onBlock (h : Spares f P) (b : Block) (hb : P false b.stmts ∧ ListsHave P (b.nodes true)) :
    (onLists f).onBlock b = pure b := by
  match b with
  | ⟨id, stmts⟩ =>
    have hlist : (onLists f).list false stmts = pure stmts := h false stmts hb.1
    simp [Transform.onBlock, h.onStmts stmts hb.2, hlist]
termination_by structural b

theorem onBlock? (h : Spares f P) (b : Option Block)
    (hb : (∀ x ∈ b, P false x.stmts) ∧ ListsHave P (blockNodes? true b)) :
    (onLists f).onBlock? b = pure b := by
  match b with
  | none => rfl
  | some b => simp [Transform.onBlock?, h.onBlock b ⟨hb.1 b rfl, hb.2⟩]
termination_by structural b

theorem onDeclarators (h : Spares f P) (ds : List Declarator) (hds : ListsHave P (declNodes true ds)) :
    (onLists f).onDeclarators ds = pure ds := by
  match ds with
  | [] => rfl
  | ⟨id, name, init⟩ :: rest =>
    have hparts : ListsHave P (exprNodes? true init) ∧ ListsHave P (declNodes true rest) := by
      simpa using hds
    simp [Transform.onDeclarators, h.onExpr? init hparts.1, h.onDeclarators rest hparts.2]
termination_by structural ds

theorem onDecl (h : Spares f P) (d : VarDecl) (hd : ListsHave P (declNodes true d.decls)) :
    (onLists f).onDecl d = pure d := by
  match d with
  | ⟨id, kind, decls⟩ => simp [Transform.onDecl, h.onDeclarators decls hd]

theorem onHead (h : Spares f P) (head : ForHead) (role : Role) (hhead : ListsHave P (head.nodes true)) :
    (onLists f).onHead head role = pure head := by
  match head with
  | .decl ⟨id, kind, decls⟩ =>
    simp [Transform.onHead, h.onDecl ⟨id, kind, decls⟩ (by simpa using hhead)]
  | .expr e => simp [Transform.onHead, h.onExpr e _ hhead]
termination_by structural head

theorem onHead? (h : Spares f P) (head : Option ForHead) (hhead : ListsHave P (headNodes? true head)) :
    (onLists f).onHead? head = pure head := by
  match head with
  | none => rfl
  | some head => simp [Transform.onHead?, h.onHead head _ hhead]

theorem onHandler? (h : Spares f P) (c : Option CatchClause)
    (hc : (∀ x ∈ c, P false x.body.stmts) ∧ ListsHave P (handlerNodes? true c)) :
    (onLists f).onHandler? c = pure c := by
  match c with
  | none => rfl
  | some ⟨id, param, body⟩ =>
    simp [Transform.onHandler?, h.onBlock body ⟨hc.1 _ rfl, by simpa using hc.2⟩]
termination_by structural c

theorem onParts (h : Spares f P) (s : Stmt) (hs : ListsHave P (s.nodes true)) :
    (onLists f).onParts s = pure s := by
  cases s with
  | block b => simp [Transform.onParts, h.onBlock b (by simpa using hs)]
  | expr id e => simp [Transform.onParts, h.onExpr e _ (by simpa using hs)]
  | var d =>
    obtain ⟨id, kind, decls⟩ := d
    simp [Transform.onParts, h.onDecl ⟨id, kind, decls⟩ (by simpa using hs)]
  | function id name fn => simp [Transform.onParts, h.onFunc fn (by simpa using hs)]
  | «if» id test yes no =>
    have hparts : ListsHave P (test.nodes true) ∧ ListsHave P (yes.nodes true) ∧
      ListsHave P (stmtNodes? true no) := by simpa [and_assoc] using hs
    simp [Transform.onParts, alone_onLists, h.onExpr test _ hparts.1, h.onParts yes hparts.2.1,
      h.onAlone? no hparts.2.2]
  | «for» id init test update body =>
    have hparts : ListsHave P (headNodes? true init) ∧ ListsHave P (exprNodes? true test) ∧
      ListsHave P (exprNodes? true update) ∧ ListsHave P (body.nodes true) := by
      simpa [and_assoc] using hs
    simp [Transform.onParts, alone_onLists, h.onHead? init hparts.1, h.onExpr? test hparts.2.1,
      h.onExpr? update hparts.2.2.1, h.onParts body hparts.2.2.2]
  | forIn id head obj body =>
    have hparts : ListsHave P (head.nodes true) ∧ ListsHave P (obj.nodes true) ∧
      ListsHave P (body.nodes true) := by
      rcases head with ⟨⟨headId, kind, decls⟩⟩ | e <;> simpa [and_assoc] using hs
    simp [Transform.onParts, alone_onLists, h.onHead head _ hparts.1, h.onExpr obj _ hparts.2.1,
      h.onParts body hparts.2.2]
  | «while» id test body =>
    have hparts : ListsHave P (test.nodes true) ∧ ListsHave P (body.nodes true) := by simpa using hs
    simp [Transform.onParts, alone_onLists, h.onExpr test _ hparts.1, h.onParts body hparts.2]
  | doWhile id body test =>
    have hparts : ListsHave P (body.nodes true) ∧ ListsHave P (test.nodes true) := by simpa using hs
    simp [Transform.onParts, alone_onLists, h.onExpr test _ hparts.2, h.onParts body hparts.1]
  | «return» id arg => simp [Transform.onParts, h.onExpr? arg (by simpa using hs)]
  | labeled id label body =>
    simp [Transform.onParts, alone_onLists, h.onParts body (by simpa using hs)]
  | throw id arg => simp [Transform.onParts, h.onExpr arg _ (by simpa using hs)]
  | «with» id obj body =>
    have hparts : ListsHave P (obj.nodes true) ∧ ListsHave P (body.nodes true) := by simpa using hs
    simp [Transform.onParts, alone_onLists, h.onExpr obj _ hparts.1, h.onParts body hparts.2]
  | «try» id block handler finalizer =>
    simp only [Stmt.nodes, listsHave_cons, listsHave_append, Node.lists, List.cons_append,
      List.forall_mem_cons, List.forall_mem_append, List.forall_mem_map, Option.mem_toList] at hs
    obtain ⟨⟨hown, hcaught, hfinal⟩, ⟨hblock, hhandler⟩, hfinalizer⟩ := hs
    simp [Transform.onParts, h.onBlock block ⟨hown, hblock⟩,
      h.onHandler? handler ⟨hcaught, hhandler⟩, h.onBlock? finalizer ⟨hfinal, hfinalizer⟩]
  | _ => rfl
termination_by structural s

theorem onAlone? (h : Spares f P) (s : Option Stmt) (hs : ListsHave P (stmtNodes? true s)) :
    (onLists f).onAlone? s = pure s := by
  match s with
  | none => rfl
  | some s => simp [Transform.onAlone?, alone_onLists, h.onParts s hs]
termination_by structural s

theorem onStmts (h : Spares f P) (ss : List Stmt) (hss : ListsHave P (stmtNodes true ss)) :
    (onLists f).onStmts ss = pure ss := by
  match ss with
  | [] => rfl
  | s :: rest =>
    rw [stmtNodes, listsHave_append] at hss
    simp [Transform.onStmts, h.onParts s hss.1, h.onStmts rest hss.2]
    simp [onLists]
termination_by structural ss

end

/-- A program whose lists the hook leaves alone. -/
theorem onProgram (h : Spares f P) (p : Program) (hp : ∀ l ∈ p.lists, P l.1 l.2) :
    (onLists f).onProgram p = pure p := by
  obtain ⟨id, body⟩ := p
  obtain ⟨hbody, hparts⟩ := Program.forall_lists.mp hp
  have hlist : (onLists f).list true body = pure body := h true body hbody
  simp [Transform.onProgram, h.onStmts body hparts, hlist]

end Spares

/-! ## Lists as the hook leaves them -/

/-- The hook gives lists that have the property, inside and out, if all lists inside have it. -/
def Establishes (I : EditState → Prop) (f : Bool → List Stmt → Edit (List Stmt))
    (P : Bool → List Stmt → Prop) : Prop :=
  ∀ isBody ss, ListsHave P (stmtNodes true ss) →
    Yields I (f isBody ss) fun xs => P isBody xs ∧ ListsHave P (stmtNodes true xs)

namespace Establishes

variable {I : EditState → Prop}

mutual

theorem onExpr (h : Establishes I f P) (e : Expr) (role : Role) :
    Yields I ((onLists f).onExpr e role) fun x => ListsHave P (x.nodes true) := by
  unfold Transform.onExpr
  rw [replaced_onLists]
  cases e with
  | array id elems => exact (h.onElems elems).bind fun a ha => .pure (by simpa using ha)
  | object id props => exact (h.onProps props).bind fun a ha => .pure (by simpa using ha)
  | function id name fn => exact (h.onFunc fn).bind fun a ha => .pure (by simpa using ha)
  | unary id op arg => exact (h.onExpr arg _).bind fun a ha => .pure (by simpa using ha)
  | update id op before arg => exact (h.onExpr arg _).bind fun a ha => .pure (by simpa using ha)
  | binary id op left right =>
    exact (h.onExpr left _).bind fun a ha => (h.onExpr right _).bind fun b hb =>
      .pure (by simpa using ⟨ha, hb⟩)
  | assign id op left right =>
    exact (h.onExpr left _).bind fun a ha => (h.onExpr right _).bind fun b hb =>
      .pure (by simpa using ⟨ha, hb⟩)
  | member id obj name => exact (h.onExpr obj _).bind fun a ha => .pure (by simpa using ha)
  | index id obj key =>
    exact (h.onExpr obj _).bind fun a ha => (h.onExpr key _).bind fun b hb =>
      .pure (by simpa using ⟨ha, hb⟩)
  | cond id test yes no =>
    exact (h.onExpr test _).bind fun a ha => (h.onExpr yes _).bind fun b hb =>
      (h.onExpr no _).bind fun c hc => .pure (by simpa using ⟨ha, hb, hc⟩)
  | call id callee args =>
    exact (h.onExpr callee _).bind fun a ha => (h.onExprs args).bind fun b hb =>
      .pure (by simpa using ⟨ha, hb⟩)
  | new id callee args =>
    exact (h.onExpr callee _).bind fun a ha => (h.onExprs args).bind fun b hb =>
      .pure (by simpa using ⟨ha, hb⟩)
  | seq id exprs => exact (h.onExprs exprs).bind fun a ha => .pure (by simpa using ha)
  | _ => exact .pure (by simp)
termination_by structural e

theorem onElems (h : Establishes I f P) (es : List (Option Expr)) :
    Yields I ((onLists f).onElems es) fun xs => ListsHave P (elemNodes true xs) := by
  match es with
  | [] => exact .pure listsHave_nil
  | none :: rest => exact (h.onElems rest).bind fun a ha => .pure ha
  | some e :: rest =>
    exact (h.onExpr e _).bind fun a ha => (h.onElems rest).bind fun b hb =>
      .pure (listsHave_append.mpr ⟨ha, hb⟩)
termination_by structural es

theorem onExprs (h : Establishes I f P) (es : List Expr) :
    Yields I ((onLists f).onExprs es) fun xs => ListsHave P (exprNodes true xs) := by
  match es with
  | [] => exact .pure listsHave_nil
  | e :: rest =>
    exact (h.onExpr e _).bind fun a ha => (h.onExprs rest).bind fun b hb =>
      .pure (listsHave_append.mpr ⟨ha, hb⟩)
termination_by structural es

theorem onExpr? (h : Establishes I f P) (e : Option Expr) :
    Yields I ((onLists f).onExpr? e) fun x => ListsHave P (exprNodes? true x) := by
  match e with
  | none => exact .pure listsHave_nil
  | some e => exact (h.onExpr e _).bind fun a ha => .pure ha
termination_by structural e

theorem onKey (h : Establishes I f P) (key : PropertyKey) :
    Yields I ((onLists f).onKey key) fun x => ListsHave P (x.nodes true) := by
  match key with
  | .computed e => exact (h.onExpr e _).bind fun a ha => .pure ha
  | .ident _ | .string _ _ | .number _ _ => exact .pure listsHave_nil
termination_by structural key

theorem onProperty (h : Establishes I f P) (p : Property) :
    Yields I ((onLists f).onProperty p) fun x => ListsHave P (x.nodes true) := by
  match p with
  | .value id key value =>
    exact (h.onKey key).bind fun a ha => (h.onExpr value _).bind fun b hb =>
      .pure (listsHave_append.mpr ⟨ha, hb⟩)
  | .getter id key fn | .setter id key fn =>
    exact (h.onKey key).bind fun a ha => (h.onFunc fn).bind fun b hb =>
      .pure (listsHave_append.mpr ⟨ha, hb⟩)
termination_by structural p

theorem onProps (h : Establishes I f P) (ps : List Property) :
    Yields I ((onLists f).onProps ps) fun xs => ListsHave P (propNodes true xs) := by
  match ps with
  | [] => exact .pure listsHave_nil
  | p :: rest =>
    exact (h.onProperty p).bind fun a ha => (h.onProps rest).bind fun b hb =>
      .pure (listsHave_append.mpr ⟨ha, hb⟩)
termination_by structural ps

theorem onFunc (h : Establishes I f P) (fn : Func) :
    Yields I ((onLists f).onFunc fn) fun x => ListsHave P (x.nodes true) := by
  match fn with
  | ⟨id, params, ⟨bodyId, stmts⟩⟩ =>
    exact (h.onStmts stmts).bind fun a ha => (h true a ha).bind fun _ hb =>
      .pure (by simpa using hb)
termination_by structural fn

theorem onBlock (h : Establishes I f P) (b : Block) : Yields I ((onLists f).onBlock b) fun x =>
    P false x.stmts ∧ ListsHave P (x.nodes true) := by
  match b with
  | ⟨id, stmts⟩ =>
    exact (h.onStmts stmts).bind fun a ha => (h false a ha).bind fun _ hb => .pure hb
termination_by structural b

theorem onBlock? (h : Establishes I f P) (b : Option Block) : Yields I ((onLists f).onBlock? b) fun x =>
    (∀ y ∈ x, P false y.stmts) ∧ ListsHave P (blockNodes? true x) := by
  match b with
  | none => exact .pure ⟨nofun, listsHave_nil⟩
  | some b => exact (h.onBlock b).bind fun a ha => .pure (by simpa using ha)
termination_by structural b

theorem onDeclarators (h : Establishes I f P) (ds : List Declarator) :
    Yields I ((onLists f).onDeclarators ds) fun xs => ListsHave P (declNodes true xs) := by
  match ds with
  | [] => exact .pure listsHave_nil
  | ⟨id, name, init⟩ :: rest =>
    exact (h.onExpr? init).bind fun a ha => (h.onDeclarators rest).bind fun b hb =>
      .pure (by simpa using ⟨ha, hb⟩)
termination_by structural ds

theorem onDecl (h : Establishes I f P) (d : VarDecl) :
    Yields I ((onLists f).onDecl d) fun x => ListsHave P (declNodes true x.decls) := by
  match d with
  | ⟨id, kind, decls⟩ => exact (h.onDeclarators decls).bind fun a ha => .pure ha

theorem onHead (h : Establishes I f P) (head : ForHead) (role : Role) :
    Yields I ((onLists f).onHead head role) fun x =>
      ListsHave P (x.nodes true) ∧ ListsHave P (x.loopNodes true) := by
  match head with
  | .decl d => exact (h.onDecl d).bind fun a ha => .pure (by cases a; simpa using ha)
  | .expr e => exact (h.onExpr e _).bind fun a ha => .pure ⟨ha, ha⟩
termination_by structural head

theorem onHead? (h : Establishes I f P) (head : Option ForHead) :
    Yields I ((onLists f).onHead? head) fun x => ListsHave P (headNodes? true x) := by
  match head with
  | none => exact .pure listsHave_nil
  | some head => exact (h.onHead head _).bind fun a ha => .pure ha.1
termination_by structural head

theorem onHandler? (h : Establishes I f P) (c : Option CatchClause) :
    Yields I ((onLists f).onHandler? c) fun x =>
      (∀ y ∈ x, P false y.body.stmts) ∧ ListsHave P (handlerNodes? true x) := by
  match c with
  | none => exact .pure ⟨nofun, listsHave_nil⟩
  | some ⟨id, param, body⟩ =>
    exact (h.onBlock body).bind fun a ha => .pure (by simpa using ha)
termination_by structural c

theorem onParts (h : Establishes I f P) (s : Stmt) :
    Yields I ((onLists f).onParts s) fun x => ListsHave P (x.nodes true) := by
  cases s with
  | block b => exact (h.onBlock b).bind fun a ha => .pure (by simpa using ha)
  | expr id e => exact (h.onExpr e _).bind fun a ha => .pure (by simpa using ha)
  | var d => exact (h.onDecl d).bind fun a ha => .pure (by cases a; simpa using ha)
  | function id name fn => exact (h.onFunc fn).bind fun a ha => .pure (by simpa using ha)
  | «if» id test yes no =>
    simp only [Transform.onParts, alone_onLists, pure_bind]
    exact (h.onExpr test _).bind fun a ha => (h.onParts yes).bind fun b hb =>
      (h.onAlone? no).bind fun c hc => .pure (by simpa using ⟨ha, hb, hc⟩)
  | «for» id init test update body =>
    simp only [Transform.onParts, alone_onLists, pure_bind]
    exact (h.onHead? init).bind fun a ha => (h.onExpr? test).bind fun b hb =>
      (h.onExpr? update).bind fun c hc => (h.onParts body).bind fun x hx =>
        .pure (by simpa using ⟨ha, hb, hc, hx⟩)
  | forIn id head obj body =>
    simp only [Transform.onParts, alone_onLists, pure_bind]
    exact (h.onHead head _).bind fun a ha => (h.onExpr obj _).bind fun b hb =>
      (h.onParts body).bind fun x hx => .pure (by simpa using ⟨ha.2, hb, hx⟩)
  | «while» id test body =>
    simp only [Transform.onParts, alone_onLists, pure_bind]
    exact (h.onExpr test _).bind fun a ha => (h.onParts body).bind fun x hx =>
      .pure (by simpa using ⟨ha, hx⟩)
  | doWhile id body test =>
    simp only [Transform.onParts, alone_onLists, pure_bind]
    exact (h.onParts body).bind fun x hx => (h.onExpr test _).bind fun a ha =>
      .pure (by simpa using ⟨hx, ha⟩)
  | «return» id arg => exact (h.onExpr? arg).bind fun a ha => .pure (by simpa using ha)
  | labeled id label body =>
    simp only [Transform.onParts, alone_onLists, pure_bind]
    exact (h.onParts body).bind fun x hx => .pure (by simpa using hx)
  | throw id arg => exact (h.onExpr arg _).bind fun a ha => .pure (by simpa using ha)
  | «with» id obj body =>
    simp only [Transform.onParts, alone_onLists, pure_bind]
    exact (h.onExpr obj _).bind fun a ha => (h.onParts body).bind fun x hx =>
      .pure (by simpa using ⟨ha, hx⟩)
  | «try» id block handler finalizer =>
    refine (h.onBlock block).bind fun a ha => (h.onHandler? handler).bind fun b hb =>
      (h.onBlock? finalizer).bind fun c hc => .pure ?_
    simp only [Stmt.nodes, listsHave_cons, listsHave_append, Node.lists, List.cons_append,
      List.forall_mem_cons, List.forall_mem_append, List.forall_mem_map, Option.mem_toList]
    exact ⟨⟨ha.1, hb.1, hc.1⟩, ⟨ha.2, hb.2⟩, hc.2⟩
  | _ => exact .pure (by simp)
termination_by structural s

theorem onAlone? (h : Establishes I f P) (s : Option Stmt) :
    Yields I ((onLists f).onAlone? s) fun x => ListsHave P (stmtNodes? true x) := by
  match s with
  | none => exact .pure listsHave_nil
  | some s =>
    simp only [Transform.onAlone?, alone_onLists, pure_bind]
    exact (h.onParts s).bind fun a ha => .pure ha
termination_by structural s

theorem onStmts (h : Establishes I f P) (ss : List Stmt) :
    Yields I ((onLists f).onStmts ss) fun xs => ListsHave P (stmtNodes true xs) := by
  match ss with
  | [] => exact .pure listsHave_nil
  | s :: rest =>
    exact (h.onParts s).bind fun a ha => (h.onStmts rest).bind fun b hb =>
      .pure (listsHave_append.mpr ⟨ha, hb⟩)
termination_by structural ss

end

/-- All lists of the program that comes out. -/
theorem onProgram (h : Establishes I f P) (p : Program) :
    Yields I ((onLists f).onProgram p) fun q => ∀ l ∈ q.lists, P l.1 l.2 :=
  (h.onStmts p.body).bind fun a ha => (h true a ha).bind fun _ hb =>
    .pure (Program.forall_lists.mpr hb)

end Establishes

end Transform

end EsOptimizer
