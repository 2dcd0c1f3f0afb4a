import EsOptimizer.Proofs.Rewrite.DeadBranches
import EsOptimizer.Proofs.Rewrite.SimplifyBlocks
import EsOptimizer.Proofs.Scope.Entry

/-!
# What a body declares stays declared

Code can be removed, but what it declares with `var` is in force in the whole body around it, and so
are the functions that it declares. `SameHoists` says that two lists of nodes declare the same in
this sense. A traversal whose hooks keep what is hoisted keeps it in the program and in every
function (`Transform.KeepsHoists`), whatever becomes of expressions: they declare nothing.

Dead branches and unreachable statements are dropped by hooks of this kind. They declare again the
names in what they drop, and they drop no code in which a function is declared, except that
functions declared directly in an unreachable list are carried over.
-/

namespace EsOptimizer

/-! ## Hoisted declarations -/

/-- The names that nodes declare with `var`. -/
def hoistedNames (ns : List Node) : List String := (ns.flatMap Node.varNames).map (·.name)

/-- The functions that nodes declare, each with the name that it is declared under. -/
def hoistedFunctions (ns : List Node) : List (Ident × NodeId) :=
  (ns.filterMap Node.functionDecl?).map fun x => (x.1, x.2.id)

/-- Nodes declare the same for the body around them: the same names with `var`, and the same
functions in the same order. -/
structure SameHoists (ns ms : List Node) : Prop where
  names : ∀ x, x ∈ hoistedNames ms ↔ x ∈ hoistedNames ns
  functions : hoistedFunctions ms = hoistedFunctions ns

/-- Of a body, hoisting uses the names and functions that it declares, and nothing else. -/
theorem Resolve.hoist_eq_hoisted (body : List Stmt) (r : Resolution) : hoist body r = (do
    for ident in (stmtNodes false body).flatMap Node.varNames do
      discard (declareIn (r.tree.scope r.current).fnScope ident .var)
    for (ident, function) in hoistedFunctions (stmtNodes false body) do
      let v ← declareIn (r.tree.scope r.current).fnScope ident .function
      modifyTree fun t => t.addHoisted (r.tree.scope r.current).fnScope (v, function) :
    Resolve Unit) r := by
  rw [hoist_eq, hoistedFunctions, List.forIn_map]

section

variable {n m : Node} {ns ms ns' ms' : List Node}

@[simp] theorem hoistedNames_nil : hoistedNames [] = [] := rfl

@[simp] theorem hoistedNames_cons :
    hoistedNames (n :: ns) = n.varNames.map (·.name) ++ hoistedNames ns := by
  simp [hoistedNames]

@[simp] theorem hoistedNames_append :
    hoistedNames (ns ++ ms) = hoistedNames ns ++ hoistedNames ms := by
  simp [hoistedNames]

@[simp] theorem hoistedFunctions_nil : hoistedFunctions [] = [] := rfl

@[simp] theorem hoistedFunctions_append :
    hoistedFunctions (ns ++ ms) = hoistedFunctions ns ++ hoistedFunctions ms := by
  simp [hoistedFunctions]

theorem hoistedFunctions_cons : hoistedFunctions (n :: ns) =
    (n.functionDecl?.map fun x => (x.1, x.2.id)).toList ++ hoistedFunctions ns := by
  rw [hoistedFunctions, List.filterMap_cons]
  cases n.functionDecl? <;> rfl

theorem mem_hoistedNames_iff {x : String} : x ∈ hoistedNames ns ↔ Declares ns x :=
  declares_iff.symm

/-! ### Nodes that declare nothing -/

/-- None of the nodes declares anything. -/
def DeclareNothing (ns : List Node) : Prop := ∀ n ∈ ns, n.varNames = [] ∧ n.functionDecl? = none

theorem DeclareNothing.names (h : DeclareNothing ns) : hoistedNames ns = [] := by
  rw [hoistedNames, List.flatMap_eq_nil_iff.mpr fun n hn => (h n hn).1]
  rfl

theorem DeclareNothing.functions (h : DeclareNothing ns) : hoistedFunctions ns = [] := by
  rw [hoistedFunctions, List.filterMap_eq_nil_iff.mpr fun n hn => (h n hn).2]
  rfl

theorem Expr.declareNothing (e : Expr) : DeclareNothing (e.nodes false) :=
  e.forall_nodes (fun _ => ⟨rfl, rfl⟩) (fun _ => ⟨rfl, rfl⟩) fun _ => ⟨rfl, rfl⟩

theorem Func.declareNothing (f : Func) : DeclareNothing (f.nodes false) :=
  f.forall_nodes fun _ => ⟨rfl, rfl⟩

@[simp] theorem Expr.hoistedNames_nodes (e : Expr) : hoistedNames (e.nodes false) = [] :=
  e.declareNothing.names

@[simp] theorem Expr.hoistedFunctions_nodes (e : Expr) : hoistedFunctions (e.nodes false) = [] :=
  e.declareNothing.functions

theorem declareNothing_expr? (e : Option Expr) : DeclareNothing (exprNodes? false e) := by
  cases e with
  | none => exact nofun
  | some e => exact e.declareNothing

@[simp] theorem hoistedNames_expr? (e : Option Expr) : hoistedNames (exprNodes? false e) = [] :=
  (declareNothing_expr? e).names

@[simp] theorem hoistedFunctions_expr? (e : Option Expr) :
    hoistedFunctions (exprNodes? false e) = [] :=
  (declareNothing_expr? e).functions

theorem declareNothing_name? (name : Option Ident) : DeclareNothing (Node.name? name) := by
  cases name with
  | none => exact nofun
  | some i => exact List.forall_mem_singleton.mpr ⟨rfl, rfl⟩

@[simp] theorem hoistedFunctions_name? (name : Option Ident) :
    hoistedFunctions (Node.name? name) = [] :=
  (declareNothing_name? name).functions

/-- Of a declaration, the declaring is done by the node in front of its names. -/
theorem declareNothing_declNodes (ds : List Declarator) : DeclareNothing (declNodes false ds) := by
  induction ds with
  | nil => exact nofun
  | cons d rest ih =>
    obtain ⟨id, name, init⟩ := d
    exact List.forall_mem_append.mpr
      ⟨List.forall_mem_cons.mpr ⟨⟨rfl, rfl⟩, declareNothing_expr? init⟩, ih⟩

end

namespace SameHoists

variable {n m : Node} {ns ms ls ns' ms' : List Node}

theorem refl (ns : List Node) : SameHoists ns ns := ⟨fun _ => Iff.rfl, rfl⟩

theorem trans (h : SameHoists ns ms) (h' : SameHoists ms ls) : SameHoists ns ls where
  names x := (h'.names x).trans (h.names x)
  functions := h'.functions.trans h.functions

theorem symm (h : SameHoists ns ms) : SameHoists ms ns :=
  ⟨fun x => (h.names x).symm, h.functions.symm⟩

theorem append (h : SameHoists ns ms) (h' : SameHoists ns' ms') :
    SameHoists (ns ++ ns') (ms ++ ms') where
  names x := by
    rw [hoistedNames_append, hoistedNames_append, List.mem_append, List.mem_append, h.names x,
      h'.names x]
  functions := by rw [hoistedFunctions_append, hoistedFunctions_append, h.functions, h'.functions]

/-- Nodes that declare the same by themselves. -/
theorem cons (hnames : m.varNames.map (·.name) = n.varNames.map (·.name))
    (hfunctions : m.functionDecl?.map (fun x => (x.1, x.2.id)) =
      n.functionDecl?.map fun x => (x.1, x.2.id)) (h : SameHoists ns ms) :
    SameHoists (n :: ns) (m :: ms) where
  names x := by
    rw [hoistedNames_cons, hoistedNames_cons, hnames, List.mem_append, List.mem_append, h.names x]
  functions := by rw [hoistedFunctions_cons, hoistedFunctions_cons, hfunctions, h.functions]

/-- A node in front that declares nothing. -/
theorem skip (hnames : m.varNames = []) (hfunction : m.functionDecl? = none)
    (h : SameHoists ns ms) : SameHoists ns (m :: ms) where
  names x := by
    rw [hoistedNames_cons, hnames]
    exact h.names x
  functions := by
    rw [hoistedFunctions_cons, hfunction]
    exact h.functions

theorem ofNothing (hns : DeclareNothing ns) (hms : DeclareNothing ms) : SameHoists ns ms where
  names x := by rw [hns.names, hms.names]
  functions := by rw [hns.functions, hms.functions]

theorem expr (e e' : Expr) : SameHoists (e.nodes false) (e'.nodes false) :=
  ofNothing e.declareNothing e'.declareNothing

theorem expr? (e e' : Option Expr) : SameHoists (exprNodes? false e) (exprNodes? false e') :=
  ofNothing (declareNothing_expr? e) (declareNothing_expr? e')

theorem name? (i j : Option Ident) : SameHoists (Node.name? i) (Node.name? j) :=
  ofNothing (declareNothing_name? i) (declareNothing_name? j)

theorem declNodes (ds ds' : List Declarator) :
    SameHoists (declNodes false ds) (EsOptimizer.declNodes false ds') :=
  ofNothing (declareNothing_declNodes ds) (declareNothing_declNodes ds')

theorem func (f g : Func) : SameHoists (f.nodes false) (g.nodes false) :=
  ofNothing f.declareNothing g.declareNothing

/-- A block declares what its statements declare. -/
theorem block (b : Block) : SameHoists (stmtNodes false b.stmts) ((Stmt.block b).nodes false) := by
  obtain ⟨id, stmts⟩ := b
  exact ⟨fun x => by simp [Stmt.nodes, Block.nodes, Node.varNames], rfl⟩

end SameHoists

/-! ## Traversals -/

/-- Nothing is known of the code that is changed. -/
def Basis.blank : Basis where
  scopes := (Resolve.atProgram ⟨0, []⟩).tree
  ok := (Resolve.ok_atProgram ⟨0, []⟩).tree
  facts := {}
  nextId := 0
  unrecorded _ _ := Std.TreeMap.getElem?_emptyc

theorem Basis.yields_blank {α : Type} (x : Edit α) : Yields blank.Fresh x fun _ => True :=
  fun _ _ => ⟨Nat.zero_le _, trivial⟩

/-- Statements that become one statement. -/
theorem Make.sameHoists_single (ss : List Stmt) : Yields Basis.blank.Fresh (Make.single ss) fun s =>
    SameHoists (stmtNodes false ss) (s.nodes false) := by
  match ss with
  | [] =>
    exact Basis.yields_new fun id _ =>
      .pure (.ofNothing nofun (List.forall_mem_singleton.mpr ⟨rfl, rfl⟩))
  | [s] => exact .pure (by simpa [stmtNodes] using SameHoists.refl _)
  | s :: s' :: rest => exact Basis.yields_new fun id _ => .pure (.block ⟨id, s :: s' :: rest⟩)

namespace Transform

/-- The hooks keep what is declared. -/
structure KeepsHoists (t : Transform) : Prop where
  stmt : ∀ place before after, Yields Basis.blank.Fresh (t.stmt place before after) fun ss =>
    SameHoists (after.nodes false) (stmtNodes false ss)
  list : ∀ isBody ss, Yields Basis.blank.Fresh (t.list isBody ss) fun xs =>
    SameHoists (stmtNodes false ss) (stmtNodes false xs)
  func : ∀ f, t.func f = pure f

/-- A declaration keeps its kind and its names. -/
structure Redeclared (d x : VarDecl) : Prop where
  kind : x.kind = d.kind
  names : x.decls.map (·.name) = d.decls.map (·.name)

theorem redeclared_onDecl (t : Transform) (d : VarDecl) :
    Yields Basis.blank.Fresh (t.onDecl d) (Redeclared d) := by
  obtain ⟨id, kind, decls⟩ := d
  have hdecls : Yields Basis.blank.Fresh (t.onDeclarators decls) fun ds =>
      ds.map (·.name) = decls.map (·.name) := by
    induction decls with
    | nil => exact .pure rfl
    | cons d rest ih =>
      obtain ⟨id', name, init⟩ := d
      exact (Basis.yields_blank _).bind fun _ _ => ih.bind fun ds hds =>
        .pure (congrArg (name :: ·) hds)
  exact hdecls.bind fun ds hds => .pure ⟨rfl, hds⟩

theorem Redeclared.varNames {d x : VarDecl} (h : Redeclared d x) :
    (Node.decl x).varNames = (Node.decl d).varNames := by
  rw [Node.varNames, Node.varNames, h.kind, h.names]

theorem Redeclared.sameHoists {d x : VarDecl} (h : Redeclared d x) :
    SameHoists (d.nodes false) (x.nodes false) := by
  obtain ⟨id, kind, decls⟩ := d
  obtain ⟨id', kind', decls'⟩ := x
  exact .cons (congrArg (List.map (·.name)) h.varNames) rfl (.declNodes decls decls')

theorem Redeclared.sameLoopHoists {d x : VarDecl} (h : Redeclared d x) :
    SameHoists ((ForHead.decl d).loopNodes false) ((ForHead.decl x).loopNodes false) := by
  obtain ⟨id, kind, decls⟩ := d
  obtain ⟨id', kind', decls'⟩ := x
  exact .cons (congrArg (List.map (·.name)) h.varNames) rfl (.declNodes decls decls')

/-- The head of a loop keeps what it declares. -/
theorem sameHoists_onHead (t : Transform) (head : ForHead) (role : Role) :
    Yields Basis.blank.Fresh (t.onHead head role) fun x =>
      SameHoists (head.nodes false) (x.nodes false) ∧
        SameHoists (head.loopNodes false) (x.loopNodes false) := by
  cases head with
  | decl d =>
    exact (redeclared_onDecl t d).bind fun x hx => .pure ⟨hx.sameHoists, hx.sameLoopHoists⟩
  | expr e => exact (Basis.yields_blank _).bind fun x _ => .pure ⟨.expr e x, .expr e x⟩

theorem sameHoists_onHead? (t : Transform) (head : Option ForHead) :
    Yields Basis.blank.Fresh (t.onHead? head) fun x =>
      SameHoists (headNodes? false head) (headNodes? false x) := by
  cases head with
  | none => exact .pure (.refl _)
  | some head => exact (t.sameHoists_onHead head .value).bind fun x hx => .pure hx.1

namespace KeepsHoists

variable {t : Transform}

theorem id_onFunc (h : t.KeepsHoists) (f : Func) :
    Yields Basis.blank.Fresh (t.onFunc f) fun g => g.id = f.id := by
  obtain ⟨id, params, ⟨bodyId, stmts⟩⟩ := f
  unfold Transform.onFunc
  split
  · exact .pure rfl
  · refine (Basis.yields_blank _).bind fun _ _ => (Basis.yields_blank _).bind fun _ _ => ?_
    rw [h.func]
    exact .pure rfl

theorem alone (h : t.KeepsHoists) {s : Stmt} (hs : Yields Basis.blank.Fresh (t.onParts s) fun x =>
    SameHoists (s.nodes false) (x.nodes false)) :
    Yields Basis.blank.Fresh (t.onParts s >>= t.alone s) fun x =>
      SameHoists (s.nodes false) (x.nodes false) :=
  hs.bind fun after hafter => (h.stmt .alone s after).bind fun ss hss =>
    (Make.sameHoists_single ss).imp fun _ hx => hafter.trans (hss.trans hx)

mutual

theorem onParts (h : t.KeepsHoists) (s : Stmt) : Yields Basis.blank.Fresh (t.onParts s) fun x =>
    SameHoists (s.nodes false) (x.nodes false) := by
  cases s with
  | block b => exact (h.onBlock b).bind fun a ha => .pure (.cons rfl rfl ha)
  | expr id e => exact (Basis.yields_blank _).bind fun a _ => .pure (.cons rfl rfl (.expr e a))
  | var d => exact (redeclared_onDecl t d).bind fun a ha => .pure (.cons rfl rfl ha.sameHoists)
  | function id name f =>
    exact (h.id_onFunc f).bind fun g hg =>
      .pure (.cons rfl (by simp [Node.functionDecl?, hg]) (.cons rfl rfl (.func f g)))
  | «if» id test yes no =>
    exact (Basis.yields_blank _).bind fun a _ => (h.alone (h.onParts yes)).bind fun b hb =>
      (h.onAlone? no).bind fun c hc =>
        .pure (.cons rfl rfl (((SameHoists.expr test a).append hb).append hc))
  | «for» id init test update body =>
    exact (t.sameHoists_onHead? init).bind fun a ha => (Basis.yields_blank _).bind fun b _ =>
      (Basis.yields_blank _).bind fun c _ => (h.alone (h.onParts body)).bind fun d hd =>
        .pure (.cons rfl rfl (((ha.append (.expr? test b)).append (.expr? update c)).append hd))
  | forIn id head obj body =>
    exact (t.sameHoists_onHead head .loopTarget).bind fun a ha =>
      (Basis.yields_blank _).bind fun b _ => (h.alone (h.onParts body)).bind fun c hc =>
        .pure (.cons rfl rfl ((ha.2.append (.expr obj b)).append hc))
  | «while» id test body =>
    exact (Basis.yields_blank _).bind fun a _ => (h.alone (h.onParts body)).bind fun b hb =>
      .pure (.cons rfl rfl ((SameHoists.expr test a).append hb))
  | doWhile id body test =>
    exact (h.alone (h.onParts body)).bind fun a ha => (Basis.yields_blank _).bind fun b _ =>
      .pure (.cons rfl rfl (ha.append (.expr test b)))
  | «return» id arg =>
    exact (Basis.yields_blank _).bind fun a _ => .pure (.cons rfl rfl (.expr? arg a))
  | labeled id label body =>
    exact (h.alone (h.onParts body)).bind fun a ha => .pure (.cons rfl rfl ha)
  | throw id arg => exact (Basis.yields_blank _).bind fun a _ => .pure (.cons rfl rfl (.expr arg a))
  | «with» id obj body =>
    exact (Basis.yields_blank _).bind fun a _ => (h.alone (h.onParts body)).bind fun b hb =>
      .pure (.cons rfl rfl ((SameHoists.expr obj a).append hb))
  | «try» id block handler finalizer =>
    exact (h.onBlock block).bind fun a ha => (h.onHandler? handler).bind fun b hb =>
      (h.onBlock? finalizer).bind fun c hc => .pure (.cons rfl rfl ((ha.append hb).append hc))
  | empty | «break» | «continue» => exact .pure (.refl _)
termination_by structural s

theorem onAlone? (h : t.KeepsHoists) (s : Option Stmt) :
    Yields Basis.blank.Fresh (t.onAlone? s) fun x =>
      SameHoists (stmtNodes? false s) (stmtNodes? false x) := by
  match s with
  | none => exact .pure (.refl _)
  | some s => exact (h.alone (h.onParts s)).bind fun a ha => .pure ha
termination_by structural s

theorem onBlock (h : t.KeepsHoists) (b : Block) : Yields Basis.blank.Fresh (t.onBlock b) fun x =>
    SameHoists (b.nodes false) (x.nodes false) := by
  match b with
  | ⟨_, stmts⟩ =>
    exact (h.onStmts stmts).bind fun a ha => (h.list false a).bind fun c hc => .pure (ha.trans hc)
termination_by structural b

theorem onBlock? (h : t.KeepsHoists) (b : Option Block) :
    Yields Basis.blank.Fresh (t.onBlock? b) fun x =>
      SameHoists (blockNodes? false b) (blockNodes? false x) := by
  match b with
  | none => exact .pure (.refl _)
  | some b => exact (h.onBlock b).bind fun a ha => .pure ha
termination_by structural b

theorem onHandler? (h : t.KeepsHoists) (c : Option CatchClause) :
    Yields Basis.blank.Fresh (t.onHandler? c) fun x =>
      SameHoists (handlerNodes? false c) (handlerNodes? false x) := by
  match c with
  | none => exact .pure (.refl _)
  | some ⟨_, param, body⟩ =>
    exact (h.onBlock body).bind fun a ha => .pure ((SameHoists.refl (Node.name? param)).append ha)
termination_by structural c

theorem onStmts (h : t.KeepsHoists) (ss : List Stmt) :
    Yields Basis.blank.Fresh (t.onStmts ss) fun xs =>
      SameHoists (stmtNodes false ss) (stmtNodes false xs) := by
  match ss with
  | [] => exact .pure (.refl _)
  | s :: rest =>
    refine (h.onParts s).bind fun after hafter => (h.stmt .listed s after).bind fun a ha =>
      (h.onStmts rest).bind fun b hb => .pure ?_
    rw [stmtNodes_append]
    exact (hafter.trans ha).append hb
termination_by structural ss

end

/-- A function declares in its body what it declared before. -/
theorem onFunc (h : t.KeepsHoists) (f : Func) : Yields Basis.blank.Fresh (t.onFunc f) fun g =>
    SameHoists (stmtNodes false f.body.stmts) (stmtNodes false g.body.stmts) := by
  obtain ⟨id, params, ⟨bodyId, stmts⟩⟩ := f
  unfold Transform.onFunc
  split
  · exact .pure (.refl _)
  · refine (h.onStmts stmts).bind fun a ha => (h.list true a).bind fun b hb => ?_
    rw [h.func]
    exact .pure (ha.trans hb)

theorem onProgram (h : t.KeepsHoists) (p : Program) :
    Yields Basis.blank.Fresh (t.onProgram p) fun q =>
      SameHoists (stmtNodes false p.body) (stmtNodes false q.body) :=
  (h.onStmts p.body).bind fun a ha => (h.list true a).bind fun _ hb => .pure (ha.trans hb)

end KeepsHoists

end Transform

/-! ## Declared again -/

theorem Stmt.hoistedFunctions_eq_nil {s : Stmt} (h : s.containsFunctionDecl = false) :
    hoistedFunctions (s.nodes false) = [] := by
  rw [containsFunctionDecl, List.any_eq_false] at h
  rw [hoistedFunctions, List.map_eq_nil_iff, List.filterMap_eq_nil_iff]
  intro n hn
  have hn := h n hn
  unfold Node.functionDecl?
  split
  · exact absurd rfl hn
  · rfl

theorem Make.declareNothing_expr (e : Expr) :
    Yields Basis.blank.Fresh (Make.expr e) fun s => DeclareNothing (s.nodes false) :=
  Basis.yields_new fun _ _ => .pure (List.forall_mem_cons.mpr ⟨⟨rfl, rfl⟩, e.declareNothing⟩)

/-- The names that nodes declare, in a declaration of their own. -/
theorem Make.sameHoists_vars {ns : List Node} {names : List String}
    (hnames : ∀ x, x ∈ names ↔ x ∈ hoistedNames ns) (hfunctions : hoistedFunctions ns = []) :
    Yields Basis.blank.Fresh (Make.vars names) fun s => SameHoists ns (s.nodes false) := by
  refine (Make.vars_onlyDeclares names).imp fun s hs => ⟨fun x => ?_, ?_⟩
  · rw [mem_hoistedNames_iff, hs.declares x, hnames x]
  · obtain ⟨id, -, -⟩ := hs
    exact (declareNothing_declNodes _).functions.trans hfunctions.symm

/-- Nodes that declare no names and no functions. -/
theorem SameHoists.nil {ns : List Node} {names : List String}
    (hnames : ∀ x, x ∈ names ↔ x ∈ hoistedNames ns) (hfunctions : hoistedFunctions ns = [])
    (hempty : names.isEmpty = true) : SameHoists ns [] where
  names x := by
    rw [← hnames x, List.isEmpty_iff.mp hempty]
    rfl
  functions := hfunctions.symm

/-! ## Dead branches -/

namespace DeadBranches

variable {a : Analysis}

theorem sameHoists_initStmts (d : Decision) : Yields Basis.blank.Fresh d.initStmts fun ss =>
    SameHoists (headNodes? false d.init) (stmtNodes false ss) := by
  unfold Decision.initStmts
  rcases d.init with _ | x | e
  · exact .pure (.refl [])
  · refine .pure ?_
    rw [stmtNodes_singleton]
    exact .skip rfl rfl (.refl (x.nodes false))
  · refine (Make.declareNothing_expr e).bind fun s hs => .pure ?_
    rw [stmtNodes_singleton]
    exact .ofNothing e.declareNothing hs

theorem sameHoists_testStmts (d : Decision) : Yields Basis.blank.Fresh d.testStmts fun ss =>
    SameHoists [] (stmtNodes false ss) := by
  unfold Decision.testStmts
  split
  · exact .pure (.refl [])
  · refine (Make.declareNothing_expr d.test).bind fun s hs => .pure ?_
    rw [stmtNodes_singleton]
    exact .ofNothing nofun hs

theorem sameHoists_hoistedStmts (d : Decision)
    (hfunctions : hoistedFunctions (stmtNodes? false d.removed) = []) :
    Yields Basis.blank.Fresh d.hoistedStmts fun ss =>
      SameHoists (stmtNodes? false d.removed) (stmtNodes false ss) := by
  have hnames (x : String) :
      x ∈ d.hoistedNames ↔ x ∈ hoistedNames (stmtNodes? false d.removed) := by
    unfold Decision.hoistedNames
    cases d.removed <;> rfl
  unfold Decision.hoistedStmts
  split
  · rename_i hempty
    exact .pure (.nil hnames hfunctions hempty)
  · refine (Make.sameHoists_vars hnames hfunctions).bind fun s hs => .pure ?_
    rwa [stmtNodes_singleton]

/-- What a statement declares is declared by what a decision removes and by what it keeps. -/
theorem sameHoists_known {s : Stmt} {d : Decision} (h : known? a s = some d)
    (hfunctions : hoistedFunctions (stmtNodes? false d.removed) = []) :
    SameHoists (s.nodes false) (headNodes? false d.init ++ stmtNodes? false d.removed ++
      stmtNodes? false d.kept) := by
  cases s with
  | «if» id test yes no =>
    obtain ⟨⟨truthy, isPure⟩, -, heq⟩ := Option.map_eq_some_iff.mp h
    cases truthy with
    | true =>
      cases heq
      have hno : hoistedFunctions (stmtNodes? false no) = [] := hfunctions
      refine ⟨fun x => ?_, ?_⟩
      · simp [Stmt.nodes, Node.varNames, headNodes?, stmtNodes?, or_comm]
      · simp [Stmt.nodes, hoistedFunctions_cons, Node.functionDecl?, headNodes?, stmtNodes?, hno]
    | false =>
      cases heq
      refine ⟨fun x => ?_, ?_⟩
      · simp [Stmt.nodes, Node.varNames, headNodes?, stmtNodes?]
      · simp [Stmt.nodes, hoistedFunctions_cons, Node.functionDecl?, headNodes?, stmtNodes?]
  | «while» id test body =>
    obtain ⟨isPure, -, rfl⟩ := of_neverRuns? h
    refine ⟨fun x => ?_, ?_⟩
    · simp [Stmt.nodes, Node.varNames, headNodes?, stmtNodes?]
    · simp [Stmt.nodes, hoistedFunctions_cons, Node.functionDecl?, headNodes?, stmtNodes?]
  | «for» id init test update body =>
    cases test with
    | none => cases h
    | some test =>
      obtain ⟨isPure, -, rfl⟩ := of_neverRuns? h
      refine ⟨fun x => ?_, ?_⟩
      · simp [Stmt.nodes, Node.varNames, stmtNodes?]
      · simp [Stmt.nodes, hoistedFunctions_cons, Node.functionDecl?, stmtNodes?]
  | _ => cases h

theorem sameHoists_outcome {s : Stmt} {d : Decision} (h : decision? a s = some d) :
    Yields Basis.blank.Fresh d.outcome fun x => SameHoists (s.nodes false) (x.nodes false) := by
  obtain ⟨hknown, hnone⟩ := Option.filter_eq_some_iff.mp h
  have hfunctions : hoistedFunctions (stmtNodes? false d.removed) = [] := by
    cases hremoved : d.removed with
    | none => rfl
    | some r =>
      rw [hremoved, Option.any_some, Bool.not_eq_true'] at hnone
      exact Stmt.hoistedFunctions_eq_nil hnone
  unfold Decision.outcome
  refine (sameHoists_initStmts d).bind fun init hinit =>
    (sameHoists_testStmts d).bind fun tests htests =>
      (sameHoists_hoistedStmts d hfunctions).bind fun vars hvars =>
        (Make.sameHoists_single _).imp fun x hx => ?_
  have hkept : SameHoists (stmtNodes? false d.kept) (stmtNodes false d.kept.toList) := by
    cases d.kept with
    | none => exact .refl []
    | some k =>
      rw [Option.toList_some, stmtNodes_singleton]
      exact .refl _
  have hparts := ((hinit.append htests).append hvars).append hkept
  rw [List.append_nil] at hparts
  simp only [stmtNodes_append] at hx
  exact (sameHoists_known hknown hfunctions).trans (hparts.trans hx)

theorem keepsHoists (a : Analysis) : (transform a).KeepsHoists where
  stmt place before after := by
    rw [transform_stmt]
    split
    · refine .pure ?_
      rw [stmtNodes_singleton]
      exact .refl _
    · rename_i d hd
      refine Basis.yields_changed ((sameHoists_outcome hd).bind fun x hx => .pure ?_)
      rwa [stmtNodes_singleton]
  list isBody ss := .pure (.refl _)
  func _ := rfl

end DeadBranches

/-! ## Simple lists -/

namespace SimplifyBlocks

variable {a : Analysis}

theorem sameHoists_simplified {s : Stmt} {ss : List Stmt} (h : simplified? a s = some ss) :
    SameHoists (s.nodes false) (stmtNodes false ss) := by
  cases s with
  | empty id =>
    cases h
    exact .ofNothing (List.forall_mem_singleton.mpr ⟨rfl, rfl⟩) nofun
  | expr id e =>
    cases (Option.ite_none_right_eq_some.mp h).2
    exact .ofNothing (List.forall_mem_cons.mpr ⟨⟨rfl, rfl⟩, e.declareNothing⟩) nofun
  | block b =>
    obtain ⟨id, stmts⟩ := b
    cases (Option.ite_none_left_eq_some.mp h).2
    exact (SameHoists.block ⟨id, ss⟩).symm
  | _ => cases h

theorem Simplifies.sameHoists {ss xs : List Stmt} (h : Simplifies a ss xs) :
    SameHoists (stmtNodes false ss) (stmtNodes false xs) := by
  induction h with
  | nil => exact .refl []
  | keep s _ ih => exact (SameHoists.refl _).append ih
  | simplify hs _ ih =>
    rw [stmtNodes_append]
    exact (sameHoists_simplified hs).append ih

/-- Where nothing has to stay, functions are declared by the members of a list themselves. -/
theorem hoistedFunctions_eq {ss : List Stmt} (h : ss.any mustStay = false) :
    hoistedFunctions (stmtNodes false (ss.filter isFunction)) =
        hoistedFunctions (stmtNodes false ss) ∧
      hoistedFunctions (stmtNodes false (ss.filter (!isFunction ·))) = [] := by
  induction ss with
  | nil => exact ⟨rfl, rfl⟩
  | cons s rest ih =>
    rw [List.any_cons, Bool.or_eq_false_iff] at h
    obtain ⟨hfunctions, hothers⟩ := ih h.2
    cases hs : isFunction s with
    | true =>
      rw [List.filter_cons_of_pos hs, List.filter_cons_of_neg (by simp [hs])]
      refine ⟨?_, hothers⟩
      rw [stmtNodes, stmtNodes, hoistedFunctions_append, hoistedFunctions_append, hfunctions]
    | false =>
      have hnone : hoistedFunctions (s.nodes false) = [] := by
        refine Stmt.hoistedFunctions_eq_nil ?_
        rw [mustStay, hs, Bool.not_false, Bool.true_and, Bool.or_eq_false_iff] at h
        exact h.1.2
      rw [List.filter_cons_of_neg (by simp [hs]), List.filter_cons_of_pos (by simp [hs])]
      rw [stmtNodes, stmtNodes, hoistedFunctions_append, hoistedFunctions_append, hnone]
      exact ⟨hfunctions, hothers⟩

/-- A list declares what its functions and its other members declare. -/
theorem sameHoists_split {ss : List Stmt} (h : ss.any mustStay = false) :
    SameHoists (stmtNodes false ss) (stmtNodes false (ss.filter isFunction) ++
      stmtNodes false (ss.filter (!isFunction ·))) where
  names x := by
    rw [hoistedNames_append, List.mem_append]
    simp only [mem_hoistedNames_iff, declares_stmtNodes, List.mem_filter]
    constructor
    · rintro (⟨s, hs, hx⟩ | ⟨s, hs, hx⟩) <;> exact ⟨s, hs.1, hx⟩
    · rintro ⟨s, hs, hx⟩
      cases hfunction : isFunction s with
      | true => exact .inl ⟨s, ⟨hs, hfunction⟩, hx⟩
      | false => exact .inr ⟨s, ⟨hs, by rw [hfunction]; rfl⟩, hx⟩
  functions := by
    rw [hoistedFunctions_append, (hoistedFunctions_eq h).1, (hoistedFunctions_eq h).2,
      List.append_nil]

theorem sameHoists_hoisted {ss : List Stmt} (h : ss.any mustStay = false) :
    Yields Basis.blank.Fresh (hoisted ss) fun xs =>
      SameHoists (stmtNodes false ss) (stmtNodes false xs) := by
  have hothers := (hoistedFunctions_eq h).2
  have hnames (x : String) :
      x ∈ ((ss.filter (!isFunction ·)).flatMap fun s => s.varNames.map (·.name)) ↔
        x ∈ hoistedNames (stmtNodes false (ss.filter (!isFunction ·))) := by
    rw [mem_hoistedNames_iff, declares_stmtNodes, List.mem_flatMap]
    simp only [declares_iff, Stmt.varNames]
  unfold hoisted
  dsimp only
  split
  · rename_i hempty
    refine .pure ((sameHoists_split h).trans ?_)
    have happend := (SameHoists.refl (stmtNodes false (ss.filter isFunction))).append
      (.nil hnames hothers hempty)
    rwa [List.append_nil] at happend
  · refine (Make.sameHoists_vars hnames hothers).bind fun s hs =>
      .pure ((sameHoists_split h).trans ?_)
    rw [stmtNodes_append, stmtNodes_singleton]
    exact (SameHoists.refl _).append hs

theorem sameHoists_dropUnreached (ss : List Stmt) :
    Yields Basis.blank.Fresh (dropUnreached ss) fun xs =>
      SameHoists (stmtNodes false ss) (stmtNodes false xs) := by
  unfold dropUnreached
  change Yields _
    (if ((cut ss).2.all isHoistedOnly || (cut ss).2.any mustStay) = true then _ else _) _
  split
  · exact .pure (.refl _)
  · rename_i hdrop
    rw [Bool.or_eq_true, not_or, Bool.not_eq_true, Bool.not_eq_true] at hdrop
    refine Basis.yields_changed ((sameHoists_hoisted hdrop.2).bind fun xs hxs => .pure ?_)
    conv => arg 1; rw [← cut_append ss]
    rw [stmtNodes_append, stmtNodes_append]
    exact (SameHoists.refl _).append hxs

theorem keepsHoists (a : Analysis) : (transform a).KeepsHoists where
  stmt place before after := by
    refine .pure ?_
    rw [stmtNodes_singleton]
    exact .refl _
  list isBody ss := by
    refine (sameHoists_dropUnreached ss).bind fun ts hts => ?_
    split
    · exact (simplifies_behind_directives a ts).imp fun xs hxs => hts.trans hxs.sameHoists
    · exact (simplifies_members a ts).imp fun xs hxs => hts.trans hxs.sameHoists
  func _ := rfl

end SimplifyBlocks

/-! ## The passes -/

/-- A program declares what another one does, and so does each of its functions: it declares what
the function does that it was made of. -/
structure Program.SameHoists (p q : Program) : Prop where
  body : EsOptimizer.SameHoists (stmtNodes false p.body) (stmtNodes false q.body)
  functions : ∀ g ∈ q.functions, ∃ f ∈ p.functions, f.id = g.id ∧
    EsOptimizer.SameHoists (stmtNodes false f.body.stmts) (stmtNodes false g.body.stmts)

theorem Transform.KeepsHoists.run {t : Transform} (h : t.KeepsHoists)
    (hcarries : t.Carries Basis.blank) (src : Source) (taken : List String) :
    src.program.SameHoists (t.run src taken).1.program where
  body := (h.onProgram src.program ⟨src.nextId, false, taken⟩ (Nat.zero_le _)).2
  functions g hg := by
    obtain ⟨f, hf, rfl | ⟨s, hs, rfl⟩⟩ := hcarries.functions_run src taken (Nat.zero_le _) hg
    · exact ⟨g, hf, rfl, .refl _⟩
    · exact ⟨f, hf, (hcarries.id_onFunc f s).symm, (h.onFunc f s hs).2⟩

/-- Removing dead branches and simplifying blocks keep what is hoisted. Whatever the facts say, the
program and every function that is left declare the same names with `var` and the same functions, in
the same order, as before. -/
theorem hoists_preserved (a : Analysis) (src : Source) :
    src.program.SameHoists (removeDeadBranches a src).1.program ∧
      src.program.SameHoists (simplifyBlocks a src).1.program :=
  ⟨(DeadBranches.keepsHoists a).run DeadBranches.carries src [],
    (SimplifyBlocks.keepsHoists a).run SimplifyBlocks.carries src []⟩

end EsOptimizer
