import EsOptimizer.Proofs.Syntax.Ids

/-!
# The functions of a tree

`NodeRules` says what a property of trees has to satisfy to hold of all of them, where a tree is
seen as the list of its nodes and the list of its ids. Three facts follow. The ids of a node are
among those of the tree. Every function of a tree has an id of its own: the ids of functions,
counted with repetitions, are among the ids of the tree. And what is inside a function of a tree is
inside the tree.

A walk that leaves out the insides of functions meets some of the nodes, in the same order.
-/

namespace EsOptimizer

theorem Expr.mem_nodes (deep : Bool) (e : Expr) : .expr e ∈ e.nodes deep := by
  cases e <;> exact List.mem_cons_self

theorem Stmt.mem_nodes (deep : Bool) (s : Stmt) : .stmt s ∈ s.nodes deep := by
  cases s <;> exact List.mem_cons_self

theorem stmtNodes_append (deep : Bool) (ss rest : List Stmt) :
    stmtNodes deep (ss ++ rest) = stmtNodes deep ss ++ stmtNodes deep rest := by
  induction ss with
  | nil => rfl
  | cons s ss ih => rw [List.cons_append, stmtNodes, stmtNodes, ih, List.append_assoc]

theorem stmtNodes_singleton (deep : Bool) (s : Stmt) : stmtNodes deep [s] = s.nodes deep := by
  rw [stmtNodes, stmtNodes, List.append_nil]

/-- What makes a property of nodes and ids hold of all trees. -/
structure NodeRules (P : List Node → List NodeId → Prop) : Prop where
  nil : ∀ ids, P [] ids
  append : ∀ {ns ms ids ids'}, P ns ids → P ms ids' → P (ns ++ ms) (ids ++ ids')
  /-- A node that is no function. -/
  node : ∀ {n ns ids}, n.func? = none → n.ids ⊆ ids → P ns ids → P (n :: ns) ids
  func : ∀ {f ns ids}, f.nodes true = .func f :: ns → f.ids = ids ++ [f.id] → P ns ids →
    P (.func f :: ns) (ids ++ [f.id])

namespace NodeRules

variable {P : List Node → List NodeId → Prop}

/-- Ids that belong to no listed node. -/
theorem more (h : NodeRules P) {ns : List Node} {ids : List NodeId} (hns : P ns ids)
    (ids' : List NodeId) : P ns (ids ++ ids') := by
  have happend := h.append hns (h.nil ids')
  rwa [List.append_nil] at happend

theorem after (h : NodeRules P) {ns : List Node} {ids : List NodeId} (hns : P ns ids)
    (id : NodeId) : P ns (id :: ids) :=
  h.append (h.nil [id]) hns

/-- A node that the ids are those of. -/
theorem own (h : NodeRules P) {n : Node} {ns : List Node} (hn : n.func? = none) (hns : P ns n.ids) :
    P (n :: ns) n.ids :=
  h.node hn (List.Subset.refl _) hns

theorem names (h : NodeRules P) (is : List Ident) : P (is.map .name) (is.map (·.id)) := by
  induction is with
  | nil => exact h.nil _
  | cons i _ ih =>
    exact h.node rfl (List.cons_subset_cons i.id (List.nil_subset _)) (h.after ih i.id)

theorem name? (h : NodeRules P) (name : Option Ident) : P (Node.name? name) (Ident.ids? name) := by
  cases name with
  | none => exact h.nil _
  | some i => exact h.own rfl (h.nil _)

mutual

theorem expr (h : NodeRules P) (e : Expr) : P (e.nodes true) e.ids := by
  cases e with
  | array id es => exact h.own rfl (h.more (h.elems es) _)
  | object id ps => exact h.own rfl (h.more (h.props ps) _)
  | function id name f => exact h.own rfl (h.more (h.append (h.name? name) (h.fn f)) _)
  | unary id op arg => exact h.own rfl (h.more (h.expr arg) _)
  | update id op before arg => exact h.own rfl (h.more (h.expr arg) _)
  | binary id op left right => exact h.own rfl (h.more (h.append (h.expr left) (h.expr right)) _)
  | assign id op left right => exact h.own rfl (h.more (h.append (h.expr left) (h.expr right)) _)
  | member id obj name => exact h.own rfl (h.more (h.expr obj) _)
  | index id obj key => exact h.own rfl (h.more (h.append (h.expr obj) (h.expr key)) _)
  | cond id test yes no =>
    exact h.own rfl (h.more (h.append (h.append (h.expr test) (h.expr yes)) (h.expr no)) _)
  | call id callee args => exact h.own rfl (h.more (h.append (h.expr callee) (h.exprs args)) _)
  | new id callee args => exact h.own rfl (h.more (h.append (h.expr callee) (h.exprs args)) _)
  | seq id es => exact h.own rfl (h.more (h.exprs es) _)
  | ident name => exact h.own rfl (h.own rfl (h.nil [name.id]))
  | _ => exact h.own rfl (h.nil _)
termination_by structural e

theorem elems (h : NodeRules P) (es : List (Option Expr)) : P (elemNodes true es) (elemIds es) := by
  match es with
  | [] => exact h.nil _
  | none :: rest => exact h.elems rest
  | some e :: rest => exact h.append (h.expr e) (h.elems rest)
termination_by structural es

theorem exprs (h : NodeRules P) (es : List Expr) : P (exprNodes true es) (exprIds es) := by
  match es with
  | [] => exact h.nil _
  | e :: rest => exact h.append (h.expr e) (h.exprs rest)
termination_by structural es

theorem expr? (h : NodeRules P) (e : Option Expr) : P (exprNodes? true e) (exprIds? e) := by
  match e with
  | none => exact h.nil _
  | some e => exact h.expr e
termination_by structural e

theorem key (h : NodeRules P) (k : PropertyKey) : P (k.nodes true) k.ids := by
  match k with
  | .computed e => exact h.expr e
  | .ident _ => exact h.nil _
  | .string _ _ => exact h.nil _
  | .number _ _ => exact h.nil _
termination_by structural k

theorem property (h : NodeRules P) (p : Property) : P (p.nodes true) p.ids := by
  match p with
  | .value _ k value => exact h.more (h.append (h.key k) (h.expr value)) _
  | .getter _ k f => exact h.more (h.append (h.key k) (h.fn f)) _
  | .setter _ k f => exact h.more (h.append (h.key k) (h.fn f)) _
termination_by structural p

theorem props (h : NodeRules P) (ps : List Property) : P (propNodes true ps) (propIds ps) := by
  match ps with
  | [] => exact h.nil _
  | p :: rest => exact h.append (h.property p) (h.props rest)
termination_by structural ps

theorem fn (h : NodeRules P) (f : Func) : P (f.nodes true) f.ids := by
  match f with
  | ⟨_, params, body⟩ => exact h.func rfl rfl (h.append (h.names params) (h.block body))
termination_by structural f

theorem block (h : NodeRules P) (b : Block) : P (b.nodes true) b.ids := by
  match b with
  | ⟨_, body⟩ => exact h.more (h.stmts body) _
termination_by structural b

theorem block? (h : NodeRules P) (b : Option Block) : P (blockNodes? true b) (blockIds? b) := by
  match b with
  | none => exact h.nil _
  | some b => exact h.block b
termination_by structural b

theorem declarator (h : NodeRules P) (d : Declarator) : P (d.nodes true) d.ids := by
  match d with
  | ⟨id, name, init⟩ =>
    have hname : [name.id] ⊆ Declarator.ids ⟨id, name, init⟩ :=
      List.cons_subset_cons _ (List.nil_subset _)
    exact h.node rfl hname (h.more (h.after (h.expr? init) name.id) _)
termination_by structural d

theorem decls (h : NodeRules P) (ds : List Declarator) : P (declNodes true ds) (declIds ds) := by
  match ds with
  | [] => exact h.nil _
  | d :: rest => exact h.append (h.declarator d) (h.decls rest)
termination_by structural ds

theorem decl (h : NodeRules P) (d : VarDecl) : P (d.nodes true) d.ids := by
  match d with
  | ⟨_, _, ds⟩ => exact h.own rfl (h.more (h.decls ds) _)
termination_by structural d

theorem head? (h : NodeRules P) (x : Option ForHead) : P (headNodes? true x) (headIds? x) := by
  match x with
  | none => exact h.nil _
  | some (.decl d) => exact h.decl d
  | some (.expr e) => exact h.expr e
termination_by structural x

theorem loopHead (h : NodeRules P) (x : ForHead) : P (x.loopNodes true) x.ids := by
  match x with
  | .decl ⟨_, _, ds⟩ => exact h.own rfl (h.more (h.decls ds) _)
  | .expr e => exact h.expr e
termination_by structural x

theorem handler? (h : NodeRules P) (c : Option CatchClause) :
    P (handlerNodes? true c) (handlerIds? c) := by
  match c with
  | none => exact h.nil _
  | some ⟨_, param, body⟩ => exact h.more (h.append (h.name? param) (h.block body)) _
termination_by structural c

theorem stmt (h : NodeRules P) (s : Stmt) : P (s.nodes true) s.ids := by
  cases s with
  | block b => exact h.own rfl (h.block b)
  | expr id e => exact h.own rfl (h.more (h.expr e) _)
  | var d => exact h.own rfl (h.decl d)
  | function id name f =>
    have hname : [name.id] ⊆ (Stmt.function id name f).ids :=
      List.cons_subset_cons _ (List.nil_subset _)
    exact h.own rfl (h.node rfl hname (h.more (h.after (h.fn f) name.id) _))
  | «if» id test yes no =>
    exact h.own rfl (h.more (h.append (h.append (h.expr test) (h.stmt yes)) (h.stmt? no)) _)
  | «for» id init test update body =>
    exact h.own rfl (h.more (h.append (h.append (h.append (h.head? init) (h.expr? test))
      (h.expr? update)) (h.stmt body)) _)
  | forIn id head obj body =>
    exact h.own rfl (h.more (h.append (h.append (h.loopHead head) (h.expr obj)) (h.stmt body)) _)
  | «while» id test body => exact h.own rfl (h.more (h.append (h.expr test) (h.stmt body)) _)
  | doWhile id body test => exact h.own rfl (h.more (h.append (h.stmt body) (h.expr test)) _)
  | «return» id arg => exact h.own rfl (h.more (h.expr? arg) _)
  | labeled id label body => exact h.own rfl (h.more (h.after (h.stmt body) label.id) _)
  | throw id arg => exact h.own rfl (h.more (h.expr arg) _)
  | «with» id obj body => exact h.own rfl (h.more (h.append (h.expr obj) (h.stmt body)) _)
  | «try» id b handler finalizer =>
    exact h.own rfl (h.more (h.append (h.append (h.block b) (h.handler? handler))
      (h.block? finalizer)) _)
  | _ => exact h.own rfl (h.nil _)
termination_by structural s

theorem stmt? (h : NodeRules P) (s : Option Stmt) : P (stmtNodes? true s) (stmtIds? s) := by
  match s with
  | none => exact h.nil _
  | some s => exact h.stmt s
termination_by structural s

theorem stmts (h : NodeRules P) (ss : List Stmt) : P (stmtNodes true ss) (stmtIds ss) := by
  match ss with
  | [] => exact h.nil _
  | s :: rest => exact h.append (h.stmt s) (h.stmts rest)
termination_by structural ss

end

end NodeRules

/-! ## Ids of parts -/

theorem nodeRules_within : NodeRules NodesWithin where
  nil _ := .nil
  append h h' := nodesWithin_append.mpr
    ⟨h.mono (List.subset_append_left _ _), h'.mono (List.subset_append_right _ _)⟩
  node _ hn h := nodesWithin_cons.mpr ⟨hn, h⟩
  func _ hids h := nodesWithin_cons.mpr
    ⟨hids ▸ List.Subset.refl _, h.mono (List.subset_append_left _ _)⟩

/-! ## Ids of functions -/

/-- The ids of the functions in a list of nodes. -/
def functionIds (ns : List Node) : List NodeId := ns.filterMap fun n => n.func?.map (·.id)

/-- No id is that of more functions than it occurs in a list. -/
def FunctionsWithin (ns : List Node) (ids : List NodeId) : Prop :=
  ∀ a, (functionIds ns).count a ≤ ids.count a

theorem nodeRules_functionsWithin : NodeRules FunctionsWithin where
  nil _ _ := Nat.zero_le _
  append h h' a := by
    rw [functionIds, List.filterMap_append, List.count_append, List.count_append]
    exact Nat.add_le_add (h a) (h' a)
  node hn _ h a := by
    rw [functionIds, List.filterMap_cons, hn]
    exact h a
  func {f ns} _ _ _ h a := by
    have hcons : functionIds (.func f :: ns) = f.id :: functionIds ns := rfl
    rw [hcons, List.count_cons, List.count_append, List.count_singleton]
    exact Nat.add_le_add_right (h a) _

/-- The functions of a program have different ids. -/
theorem Program.Regular.functions_nodup {p : Program} (h : p.Regular) :
    (p.functions.map (·.id)).Nodup := by
  have hids : p.functions.map (·.id) = functionIds p.nodes := by
    rw [functions, List.map_filterMap]
    rfl
  rw [hids, List.nodup_iff_count_le_one]
  intro a
  exact Nat.le_trans (nodeRules_functionsWithin.stmts p.body a)
    (List.nodup_iff_count_le_one.mp h.unlisted.nodup a)

/-! ## Insides of functions -/

/-- What is inside a listed function is listed too. -/
def HoldsInsides (ns : List Node) : Prop := ∀ f, .func f ∈ ns → f.nodes true ⊆ ns

theorem nodeRules_holdsInsides : NodeRules fun ns _ => HoldsInsides ns where
  nil _ := nofun
  append h h' f hf := by
    rcases List.mem_append.mp hf with hf | hf
    · exact List.Subset.trans (h f hf) (List.subset_append_left _ _)
    · exact List.Subset.trans (h' f hf) (List.subset_append_right _ _)
  node hn _ h f hf := by
    rcases List.mem_cons.mp hf with rfl | hf
    · cases hn
    · exact List.Subset.trans (h f hf) (List.subset_cons_self _ _)
  func hnodes _ h g hg := by
    rcases List.mem_cons.mp hg with heq | hg
    · rw [Node.func.inj heq, hnodes]
      exact List.Subset.refl _
    · exact List.Subset.trans (h g hg) (List.subset_cons_self _ _)

/-- What is inside a function of a program is inside the program. -/
theorem Program.nodes_of_function {p : Program} {f : Func} (hf : f ∈ p.functions) :
    f.nodes true ⊆ p.nodes := by
  obtain ⟨n, hn, hfunc⟩ := List.mem_filterMap.mp hf
  cases n with
  | func g =>
    cases hfunc
    exact nodeRules_holdsInsides.stmts p.body f hn
  | _ => cases hfunc

/-! ## Walks that leave out the insides -/

theorem Func.nodes_shallow (f : Func) : f.nodes false = [.func f] := by
  obtain ⟨id, params, body⟩ := f
  rfl

section

variable {P : Node → Prop}

theorem Func.forall_nodes (hfunc : ∀ f, P (.func f)) (f : Func) : ∀ n ∈ f.nodes false, P n := by
  rw [f.nodes_shallow]
  exact List.forall_mem_singleton.mpr (hfunc f)

mutual

/-- Outside functions, an expression holds expressions, names and functions only. -/
theorem Expr.forall_nodes (hexpr : ∀ e, P (.expr e)) (hname : ∀ i, P (.name i))
    (hfunc : ∀ f, P (.func f)) (e : Expr) : ∀ n ∈ e.nodes false, P n := by
  cases e with
  | array id es => exact List.forall_mem_cons.mpr ⟨hexpr _, forall_elemNodes hexpr hname hfunc es⟩
  | object id ps => exact List.forall_mem_cons.mpr ⟨hexpr _, forall_propNodes hexpr hname hfunc ps⟩
  | function id name f =>
    refine List.forall_mem_cons.mpr ⟨hexpr _, List.forall_mem_append.mpr
      ⟨?_, f.forall_nodes hfunc⟩⟩
    cases name with
    | none => exact List.forall_mem_nil _
    | some i => exact List.forall_mem_singleton.mpr (hname i)
  | unary id op arg | update id op before arg | member id arg name =>
    exact List.forall_mem_cons.mpr ⟨hexpr _, arg.forall_nodes hexpr hname hfunc⟩
  | binary id op left right | assign id op left right | index id left right =>
    exact List.forall_mem_cons.mpr ⟨hexpr _, List.forall_mem_append.mpr
      ⟨left.forall_nodes hexpr hname hfunc, right.forall_nodes hexpr hname hfunc⟩⟩
  | cond id test yes no =>
    exact List.forall_mem_cons.mpr ⟨hexpr _, List.forall_mem_append.mpr ⟨List.forall_mem_append.mpr
      ⟨test.forall_nodes hexpr hname hfunc, yes.forall_nodes hexpr hname hfunc⟩,
      no.forall_nodes hexpr hname hfunc⟩⟩
  | call id callee args | new id callee args =>
    exact List.forall_mem_cons.mpr ⟨hexpr _, List.forall_mem_append.mpr
      ⟨callee.forall_nodes hexpr hname hfunc, forall_exprNodes hexpr hname hfunc args⟩⟩
  | seq id es => exact List.forall_mem_cons.mpr ⟨hexpr _, forall_exprNodes hexpr hname hfunc es⟩
  | ident i =>
    exact List.forall_mem_cons.mpr ⟨hexpr _, List.forall_mem_singleton.mpr (hname i)⟩
  | _ => exact List.forall_mem_singleton.mpr (hexpr _)
termination_by structural e

theorem forall_elemNodes (hexpr : ∀ e, P (.expr e)) (hname : ∀ i, P (.name i))
    (hfunc : ∀ f, P (.func f)) (es : List (Option Expr)) : ∀ n ∈ elemNodes false es, P n := by
  match es with
  | [] => exact List.forall_mem_nil _
  | none :: rest => exact forall_elemNodes hexpr hname hfunc rest
  | some e :: rest =>
    exact List.forall_mem_append.mpr
      ⟨e.forall_nodes hexpr hname hfunc, forall_elemNodes hexpr hname hfunc rest⟩
termination_by structural es

theorem forall_exprNodes (hexpr : ∀ e, P (.expr e)) (hname : ∀ i, P (.name i))
    (hfunc : ∀ f, P (.func f)) (es : List Expr) : ∀ n ∈ exprNodes false es, P n := by
  match es with
  | [] => exact List.forall_mem_nil _
  | e :: rest =>
    exact List.forall_mem_append.mpr
      ⟨e.forall_nodes hexpr hname hfunc, forall_exprNodes hexpr hname hfunc rest⟩
termination_by structural es

theorem PropertyKey.forall_nodes (hexpr : ∀ e, P (.expr e)) (hname : ∀ i, P (.name i))
    (hfunc : ∀ f, P (.func f)) (key : PropertyKey) : ∀ n ∈ key.nodes false, P n := by
  match key with
  | .computed e => exact e.forall_nodes hexpr hname hfunc
  | .ident _ | .string _ _ | .number _ _ => exact List.forall_mem_nil _
termination_by structural key

theorem Property.forall_nodes (hexpr : ∀ e, P (.expr e)) (hname : ∀ i, P (.name i))
    (hfunc : ∀ f, P (.func f)) (p : Property) : ∀ n ∈ p.nodes false, P n := by
  match p with
  | .value _ key e =>
    exact List.forall_mem_append.mpr
      ⟨key.forall_nodes hexpr hname hfunc, e.forall_nodes hexpr hname hfunc⟩
  | .getter _ key f | .setter _ key f =>
    exact List.forall_mem_append.mpr
      ⟨key.forall_nodes hexpr hname hfunc, f.forall_nodes hfunc⟩
termination_by structural p

theorem forall_propNodes (hexpr : ∀ e, P (.expr e)) (hname : ∀ i, P (.name i))
    (hfunc : ∀ f, P (.func f)) (ps : List Property) : ∀ n ∈ propNodes false ps, P n := by
  match ps with
  | [] => exact List.forall_mem_nil _
  | p :: rest =>
    exact List.forall_mem_append.mpr
      ⟨p.forall_nodes hexpr hname hfunc, forall_propNodes hexpr hname hfunc rest⟩
termination_by structural ps

end

end

theorem Func.nodes_sublist (f : Func) : (f.nodes false).Sublist (f.nodes true) := by
  obtain ⟨id, params, body⟩ := f
  exact (List.nil_sublist _).cons_cons _

mutual

theorem Expr.nodes_sublist (e : Expr) : (e.nodes false).Sublist (e.nodes true) := by
  cases e with
  | array id es => exact (elemNodes_sublist es).cons_cons _
  | object id ps => exact (propNodes_sublist ps).cons_cons _
  | function id name f => exact ((List.Sublist.refl _).append f.nodes_sublist).cons_cons _
  | unary id op arg => exact (Expr.nodes_sublist arg).cons_cons _
  | update id op before arg => exact (Expr.nodes_sublist arg).cons_cons _
  | binary id op left right =>
    exact ((Expr.nodes_sublist left).append (Expr.nodes_sublist right)).cons_cons _
  | assign id op left right =>
    exact ((Expr.nodes_sublist left).append (Expr.nodes_sublist right)).cons_cons _
  | member id obj name => exact (Expr.nodes_sublist obj).cons_cons _
  | index id obj key =>
    exact ((Expr.nodes_sublist obj).append (Expr.nodes_sublist key)).cons_cons _
  | cond id test yes no =>
    exact (((Expr.nodes_sublist test).append (Expr.nodes_sublist yes)).append
      (Expr.nodes_sublist no)).cons_cons _
  | call id callee args =>
    exact ((Expr.nodes_sublist callee).append (exprNodes_sublist args)).cons_cons _
  | new id callee args =>
    exact ((Expr.nodes_sublist callee).append (exprNodes_sublist args)).cons_cons _
  | seq id es => exact (exprNodes_sublist es).cons_cons _
  | _ => exact List.Sublist.refl _
termination_by structural e

theorem elemNodes_sublist (es : List (Option Expr)) :
    (elemNodes false es).Sublist (elemNodes true es) := by
  match es with
  | [] => exact List.Sublist.refl _
  | none :: rest => exact elemNodes_sublist rest
  | some e :: rest => exact (Expr.nodes_sublist e).append (elemNodes_sublist rest)
termination_by structural es

theorem exprNodes_sublist (es : List Expr) :
    (exprNodes false es).Sublist (exprNodes true es) := by
  match es with
  | [] => exact List.Sublist.refl _
  | e :: rest => exact (Expr.nodes_sublist e).append (exprNodes_sublist rest)
termination_by structural es

theorem PropertyKey.nodes_sublist (key : PropertyKey) :
    (key.nodes false).Sublist (key.nodes true) := by
  match key with
  | .computed e => exact Expr.nodes_sublist e
  | .ident _ | .string _ _ | .number _ _ => exact List.Sublist.refl _
termination_by structural key

theorem Property.nodes_sublist (p : Property) : (p.nodes false).Sublist (p.nodes true) := by
  match p with
  | .value _ key e => exact (PropertyKey.nodes_sublist key).append (Expr.nodes_sublist e)
  | .getter _ key f | .setter _ key f =>
    exact (PropertyKey.nodes_sublist key).append f.nodes_sublist
termination_by structural p

theorem propNodes_sublist (ps : List Property) :
    (propNodes false ps).Sublist (propNodes true ps) := by
  match ps with
  | [] => exact List.Sublist.refl _
  | p :: rest => exact (Property.nodes_sublist p).append (propNodes_sublist rest)
termination_by structural ps

end

theorem exprNodes?_sublist (e : Option Expr) :
    (exprNodes? false e).Sublist (exprNodes? true e) := by
  cases e with
  | none => exact List.Sublist.refl _
  | some e => exact e.nodes_sublist

theorem declNodes_sublist (ds : List Declarator) :
    (declNodes false ds).Sublist (declNodes true ds) := by
  induction ds with
  | nil => exact List.Sublist.refl _
  | cons d rest ih =>
    obtain ⟨id, name, init⟩ := d
    exact ((exprNodes?_sublist init).cons_cons _).append ih

theorem VarDecl.nodes_sublist (d : VarDecl) : (d.nodes false).Sublist (d.nodes true) := by
  obtain ⟨id, kind, decls⟩ := d
  exact (declNodes_sublist decls).cons_cons _

theorem headNodes?_sublist (head : Option ForHead) :
    (headNodes? false head).Sublist (headNodes? true head) := by
  match head with
  | none => exact List.Sublist.refl _
  | some (.decl d) => exact d.nodes_sublist
  | some (.expr e) => exact e.nodes_sublist

theorem ForHead.loopNodes_sublist (head : ForHead) :
    (head.loopNodes false).Sublist (head.loopNodes true) := by
  cases head with
  | decl d =>
    obtain ⟨id, kind, decls⟩ := d
    exact (declNodes_sublist decls).cons_cons _
  | expr e => exact e.nodes_sublist

mutual

theorem Stmt.nodes_sublist (s : Stmt) : (s.nodes false).Sublist (s.nodes true) := by
  cases s with
  | block b => exact (Block.nodes_sublist b).cons_cons _
  | expr id e => exact e.nodes_sublist.cons_cons _
  | var d => exact d.nodes_sublist.cons_cons _
  | function id name f => exact (f.nodes_sublist.cons_cons _).cons_cons _
  | «if» id test yes no =>
    exact ((test.nodes_sublist.append (Stmt.nodes_sublist yes)).append
      (stmtNodes?_sublist no)).cons_cons _
  | «for» id init test update body =>
    exact ((((headNodes?_sublist init).append (exprNodes?_sublist test)).append
      (exprNodes?_sublist update)).append (Stmt.nodes_sublist body)).cons_cons _
  | forIn id head obj body =>
    exact ((head.loopNodes_sublist.append obj.nodes_sublist).append
      (Stmt.nodes_sublist body)).cons_cons _
  | «while» id test body =>
    exact (test.nodes_sublist.append (Stmt.nodes_sublist body)).cons_cons _
  | doWhile id body test =>
    exact ((Stmt.nodes_sublist body).append test.nodes_sublist).cons_cons _
  | «return» id arg => exact (exprNodes?_sublist arg).cons_cons _
  | labeled id label body => exact (Stmt.nodes_sublist body).cons_cons _
  | throw id arg => exact arg.nodes_sublist.cons_cons _
  | «with» id obj body => exact (obj.nodes_sublist.append (Stmt.nodes_sublist body)).cons_cons _
  | «try» id block handler finalizer =>
    exact (((Block.nodes_sublist block).append (handlerNodes?_sublist handler)).append
      (blockNodes?_sublist finalizer)).cons_cons _
  | _ => exact List.Sublist.refl _
termination_by structural s

theorem stmtNodes?_sublist (s : Option Stmt) :
    (stmtNodes? false s).Sublist (stmtNodes? true s) := by
  match s with
  | none => exact List.Sublist.refl _
  | some s => exact Stmt.nodes_sublist s
termination_by structural s

theorem Block.nodes_sublist (b : Block) : (b.nodes false).Sublist (b.nodes true) := by
  match b with
  | ⟨_, stmts⟩ => exact stmtNodes_sublist stmts
termination_by structural b

theorem blockNodes?_sublist (b : Option Block) :
    (blockNodes? false b).Sublist (blockNodes? true b) := by
  match b with
  | none => exact List.Sublist.refl _
  | some b => exact Block.nodes_sublist b
termination_by structural b

theorem handlerNodes?_sublist (c : Option CatchClause) :
    (handlerNodes? false c).Sublist (handlerNodes? true c) := by
  match c with
  | none => exact List.Sublist.refl _
  | some ⟨_, _, body⟩ => exact (List.Sublist.refl _).append (Block.nodes_sublist body)
termination_by structural c

theorem stmtNodes_sublist (ss : List Stmt) :
    (stmtNodes false ss).Sublist (stmtNodes true ss) := by
  match ss with
  | [] => exact List.Sublist.refl _
  | s :: rest => exact (Stmt.nodes_sublist s).append (stmtNodes_sublist rest)
termination_by structural ss

end

theorem Stmt.nodes_within (s : Stmt) : NodesWithin (s.nodes false) s.ids :=
  fun n hn => nodeRules_within.stmt s n ((nodes_sublist s).subset hn)

theorem stmtNodes_within (ss : List Stmt) : NodesWithin (stmtNodes false ss) (stmtIds ss) :=
  fun n hn => nodeRules_within.stmts ss n ((stmtNodes_sublist ss).subset hn)

end EsOptimizer
