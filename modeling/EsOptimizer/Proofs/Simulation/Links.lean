import EsOptimizer.Proofs.Run.Calls
import EsOptimizer.Proofs.Simulation.Binding

/-!
# First-order code and its scopes

The names of first-order code mean variables of the body that it stands in, and what it calls are
functions that the outermost scope holds from the start. `Expr.Linked` and `Stmt.Linked` say so;
`link` tells which function a name calls. It holds of code that is resolved from a scope where all
this is found (`Layout.Sees`).
-/

namespace EsOptimizer

/-! ## What first-order code has not -/

section

variable {callable own : List String} {deep : Bool}

mutual

theorem Expr.firstOrder_nodes (e : Expr) (h : e.isFirstOrder callable own = true) :
    ∀ n ∈ e.nodes deep, n.IsPlain := by
  cases e with
  | ident i => simp [Expr.nodes, Node.IsPlain]
  | string _ _ | bool _ _ | null _ | number _ _ => simp [Expr.nodes, Node.IsPlain]
  | unary id op arg =>
    rw [Expr.isFirstOrder, Bool.and_eq_true] at h
    exact List.forall_mem_cons.mpr ⟨trivial, Expr.firstOrder_nodes arg h.2⟩
  | update id op before arg =>
    cases arg with
    | ident i => simp [Expr.nodes, Node.IsPlain]
    | _ => simp [Expr.isFirstOrder] at h
  | binary id op left right =>
    simp only [Expr.isFirstOrder, Bool.and_eq_true] at h
    exact List.forall_mem_cons.mpr ⟨trivial, List.forall_mem_append.mpr
      ⟨Expr.firstOrder_nodes left h.1.2, Expr.firstOrder_nodes right h.2⟩⟩
  | assign id op left right =>
    cases left with
    | ident i =>
      rw [Expr.isFirstOrder, Bool.and_eq_true] at h
      exact List.forall_mem_cons.mpr ⟨trivial, List.forall_mem_append.mpr
        ⟨by simp [Expr.nodes, Node.IsPlain], Expr.firstOrder_nodes right h.2⟩⟩
    | _ => simp [Expr.isFirstOrder] at h
  | cond id test yes no =>
    simp only [Expr.isFirstOrder, Bool.and_eq_true] at h
    exact List.forall_mem_cons.mpr ⟨trivial, List.forall_mem_append.mpr ⟨List.forall_mem_append.mpr
      ⟨Expr.firstOrder_nodes test h.1.1, Expr.firstOrder_nodes yes h.1.2⟩,
      Expr.firstOrder_nodes no h.2⟩⟩
  | call id callee args =>
    cases callee with
    | ident i =>
      rw [Expr.isFirstOrder, Bool.and_eq_true] at h
      exact List.forall_mem_cons.mpr ⟨trivial, List.forall_mem_append.mpr
        ⟨by simp [Expr.nodes, Node.IsPlain], areFirstOrder_nodes args h.2⟩⟩
    | _ => simp [Expr.isFirstOrder] at h
  | seq id exprs => exact List.forall_mem_cons.mpr ⟨trivial, areFirstOrder_nodes exprs h⟩
  | _ => simp [Expr.isFirstOrder] at h
termination_by structural e

theorem areFirstOrder_nodes (es : List Expr) (h : areFirstOrder callable own es = true) :
    ∀ n ∈ exprNodes deep es, n.IsPlain := by
  match es with
  | [] => exact nofun
  | e :: rest =>
    rw [areFirstOrder, Bool.and_eq_true] at h
    exact List.forall_mem_append.mpr ⟨Expr.firstOrder_nodes e h.1, areFirstOrder_nodes rest h.2⟩
termination_by structural es

end

theorem firstOrder?_nodes {e : Option Expr} (h : isFirstOrder? callable own e = true) :
    ∀ n ∈ exprNodes? deep e, n.IsPlain := by
  cases e with
  | none => exact nofun
  | some e => exact Expr.firstOrder_nodes e h

theorem VarDecl.firstOrder_nodes {d : VarDecl} (h : d.isFirstOrder callable own = true) :
    ∀ n ∈ d.nodes deep, n.IsPlain := by
  obtain ⟨id, kind, decls⟩ := d
  rw [VarDecl.isFirstOrder, Bool.and_eq_true] at h
  have hdecls : ∀ (ds : List Declarator), (∀ x ∈ ds, isFirstOrder? callable own x.init = true) →
      ∀ n ∈ declNodes deep ds, n.IsPlain := by
    intro ds
    induction ds with
    | nil => exact fun _ => nofun
    | cons d rest ih =>
      intro hds
      obtain ⟨hd, hrest⟩ := List.forall_mem_cons.mp hds
      obtain ⟨_, name, init⟩ := d
      exact List.forall_mem_append.mpr
        ⟨List.forall_mem_cons.mpr ⟨trivial, firstOrder?_nodes hd⟩, ih hrest⟩
  refine List.forall_mem_cons.mpr ⟨trivial, hdecls decls fun x hx => ?_⟩
  exact (Bool.and_eq_true_iff.mp (List.all_eq_true.mp h.2 x hx)).2

mutual

theorem Stmt.firstOrder_nodes (s : Stmt) (h : s.isFirstOrder callable own = true) :
    ∀ n ∈ s.nodes deep, n.IsPlain := by
  cases s with
  | block b => exact List.forall_mem_cons.mpr ⟨trivial, Block.firstOrder_nodes b h⟩
  | empty _ => simp [Stmt.nodes, Node.IsPlain]
  | expr id e => exact List.forall_mem_cons.mpr ⟨trivial, Expr.firstOrder_nodes e h⟩
  | var d => exact List.forall_mem_cons.mpr ⟨trivial, VarDecl.firstOrder_nodes h⟩
  | «if» id test yes no =>
    simp only [Stmt.isFirstOrder, Bool.and_eq_true] at h
    exact List.forall_mem_cons.mpr ⟨trivial, List.forall_mem_append.mpr ⟨List.forall_mem_append.mpr
      ⟨Expr.firstOrder_nodes test h.1.1, Stmt.firstOrder_nodes yes h.1.2⟩,
      firstOrderStmt?_nodes no h.2⟩⟩
  | «return» id arg => exact List.forall_mem_cons.mpr ⟨trivial, firstOrder?_nodes h⟩
  | _ => simp [Stmt.isFirstOrder] at h
termination_by structural s

theorem firstOrderStmt?_nodes (s : Option Stmt) (h : isFirstOrderStmt? callable own s = true) :
    ∀ n ∈ stmtNodes? deep s, n.IsPlain := by
  match s with
  | none => exact nofun
  | some s => exact Stmt.firstOrder_nodes s h
termination_by structural s

theorem Block.firstOrder_nodes (b : Block) (h : b.isFirstOrder callable own = true) :
    ∀ n ∈ b.nodes deep, n.IsPlain := by
  match b with
  | ⟨_, stmts⟩ => exact areFirstOrderStmts_nodes stmts h
termination_by structural b

theorem areFirstOrderStmts_nodes (ss : List Stmt)
    (h : areFirstOrderStmts callable own ss = true) : ∀ n ∈ stmtNodes deep ss, n.IsPlain := by
  match ss with
  | [] => exact nofun
  | s :: rest =>
    rw [areFirstOrderStmts, Bool.and_eq_true] at h
    exact List.forall_mem_append.mpr
      ⟨Stmt.firstOrder_nodes s h.1, areFirstOrderStmts_nodes rest h.2⟩
termination_by structural ss

end

/-- First-order code declares nothing for a block alone. -/
theorem bare_of_firstOrder {stmts : List Stmt}
    (h : areFirstOrderStmts callable own stmts = true) : Bare stmts := by
  intro d hd
  induction stmts with
  | nil => cases hd
  | cons s rest ih =>
    rw [areFirstOrderStmts, Bool.and_eq_true] at h
    rcases List.mem_cons.mp hd with rfl | hd
    · rw [Stmt.isFirstOrder, VarDecl.isFirstOrder, Bool.and_eq_true] at h
      exact beq_iff_eq.mp h.1.1
    · exact ih h.2 hd

theorem Func.hasFlatBody_of_firstOrder {f : Func}
    (h : areFirstOrderStmts callable own f.body.stmts = true) : f.HasFlatBody where
  bare := bare_of_firstOrder h
  flat := flat_of_plain (areFirstOrderStmts_nodes _ h)
  noFunctions := functionDecls_of_plain (areFirstOrderStmts_nodes _ h)

end

/-! ## Linked code -/

namespace ScopeTree

/-- A name calls a function, by a variable of the outermost scope. -/
def Links (scopes : ScopeTree) (link : String → Option Func) (i : Ident) : Prop :=
  ∃ f v, link i.name = some f ∧ scopes.varOf i.id = some v ∧ (v, f.id) ∈ (scopes.scope root).hoisted

/-- The variables that hold functions from the start are those of their declarations. -/
def HoistsFunctions (scopes : ScopeTree) : Prop :=
  ∀ x ∈ (scopes.scope root).hoisted, (scopes.var x.1).kind = .function

end ScopeTree

/-- The variables of a layout are different ones, declared in the body with the scope `fs`. -/
structure Layout.Local (scopes : ScopeTree) (fs : ScopeId) (Δ : Layout) : Prop where
  nodup : Δ.vars.Nodup
  fnScope : ∀ v ∈ Δ.vars, (scopes.var v).fnScope = fs
  kind : ∀ v ∈ Δ.vars, (scopes.var v).kind = .var ∨ (scopes.var v).kind = .param

namespace Layout.Local

variable {scopes : ScopeTree} {fs : ScopeId} {Δ : Layout}

theorem exists_always (h : Δ.Local scopes fs) {v : VarId} (hv : v ∈ Δ.vars) :
    (scopes.var v).kind ≠ .implicit ∧ (scopes.var v).isBlockScoped = false := by
  rcases h.kind v hv with hk | hk <;> simp [Variable.isBlockScoped, hk]

theorem not_const (h : Δ.Local scopes fs) {v : VarId} (hv : v ∈ Δ.vars) :
    (scopes.var v).kind ≠ .const := by
  rcases h.kind v hv with hk | hk <;> rw [hk] <;> nofun

/-- None of the variables holds a function from the start. -/
theorem not_hoisted (h : Δ.Local scopes fs) (hfns : scopes.HoistsFunctions) {x : VarId × NodeId}
    (hx : x ∈ (scopes.scope ScopeTree.root).hoisted) : x.1 ∉ Δ.vars := by
  intro hv
  have hkind := hfns x hx
  rcases h.kind _ hv with hk | hk <;> rw [hk] at hkind <;> cases hkind

end Layout.Local

section

variable (scopes : ScopeTree) (link : String → Option Func) (Δ : Layout)

mutual

/-- An expression is first-order, and its names mean the variables of a layout and functions. -/
def Expr.Linked : Expr → Prop
  | .ident i => ∃ v, Δ.lookup i.name = some v ∧ scopes.varOf i.id = some v
  | .string _ _ | .bool _ _ | .null _ | .number _ _ => True
  | .unary _ op arg => op ≠ .delete ∧ arg.Linked
  | .update _ _ _ (.ident i) => scopes.Assigns Δ i
  | .binary _ op left right => op ≠ .in ∧ op ≠ .instanceOf ∧ left.Linked ∧ right.Linked
  | .assign _ _ (.ident i) right => scopes.Assigns Δ i ∧ right.Linked
  | .cond _ test yes no => test.Linked ∧ yes.Linked ∧ no.Linked
  | .call _ (.ident i) args => scopes.Links link i ∧ AreLinked args
  | .seq _ exprs => AreLinked exprs
  | _ => False

def AreLinked : List Expr → Prop
  | [] => True
  | e :: rest => e.Linked ∧ AreLinked rest

end

/-- An expression, if there is one, is linked. -/
def Linked? : Option Expr → Prop
  | none => True
  | some e => e.Linked scopes link Δ

/-- Declarations with `var` are linked. -/
def DeclsLinked : List Declarator → Prop
  | [] => True
  | x :: rest =>
    (x.init.isSome = true → scopes.Assigns Δ x.name) ∧ Linked? scopes link Δ x.init ∧
      DeclsLinked rest

mutual

/-- A statement is first-order, its names mean the variables of a layout and functions, and it opens
no scopes that declare something. -/
def Stmt.Linked : Stmt → Prop
  | .block b => b.Linked
  | .empty _ | .function _ _ _ => True
  | .expr _ e => e.Linked scopes link Δ
  | .var d => d.kind = .var ∧ DeclsLinked scopes link Δ d.decls
  | .if _ test yes no => test.Linked scopes link Δ ∧ yes.Linked ∧ StmtLinked? no
  | .return _ arg => EsOptimizer.Linked? scopes link Δ arg
  | _ => False

def StmtLinked? : Option Stmt → Prop
  | none => True
  | some s => s.Linked

def Block.Linked : Block → Prop
  | ⟨id, stmts⟩ => scopes.OpensNone Δ id ∧ StmtsLinked stmts

def StmtsLinked : List Stmt → Prop
  | [] => True
  | s :: rest => s.Linked ∧ StmtsLinked rest

end

end

/-! ## Resolved code is linked -/

section

variable {t : ScopeTree} {link : String → Option Func} {callable own : List String} {s : ScopeId}
  {Δ : Layout}

/-- From a scope, the variables of a layout are found and the functions with the names
`callable`. -/
structure Layout.Sees (t : ScopeTree) (link : String → Option Func) (callable : List String)
    (s : ScopeId) (Δ : Layout) : Prop extends Δ.Found t s where
  functions : t.HoistsFunctions
  callees : ∀ name, callable.contains name = true → ∃ f v, link name = some f ∧
    t.lookup s name = some v ∧ (v, f.id) ∈ (t.scope ScopeTree.root).hoisted

namespace Layout.Sees

/-- A scope without variables. -/
theorem empty (h : Δ.Sees t link callable s) {id : NodeId} {inner : ScopeId}
    (hopens : t.Opens id s inner) (hempty : t.IsEmpty inner) : Δ.Sees t link callable inner where
  toFound := h.toFound.empty hopens hempty
  functions := h.functions
  callees := fun name hname => by
    rw [hopens.lookup_eq h.ok hempty]
    exact h.callees name hname

/-- The name of a function means it. -/
theorem links (h : Δ.Sees t link callable s) {i : Ident} {kind : SiteKind}
    (hx : t.Resolves s (i, kind)) (hi : callable.contains i.name = true) : t.Links link i := by
  obtain ⟨f, v, hf, hlookup, hhoisted⟩ := h.callees i.name hi
  refine ⟨f, v, hf, ?_, hhoisted⟩
  rcases hx with ⟨u, hu, hvar, -⟩ | ⟨-, himplicit⟩
  · cases hlookup.symm.trans hu
    exact hvar
  · have hkind := himplicit v hlookup
    rw [h.functions _ hhoisted] at hkind
    cases hkind

end Layout.Sees

mutual

theorem Expr.linked (h : Δ.Sees t link callable s) (hown : Δ.Has own) (e : Expr)
    (he : e.isFirstOrder callable own = true) (huses : t.ResolvesAll e.uses s) :
    e.Linked t link Δ := by
  cases e with
  | ident i =>
    obtain ⟨v, hv⟩ := Option.isSome_iff_exists.mp (hown _ he)
    have hi : t.Resolves s (i, .read) := huses _ List.mem_cons_self
    exact ⟨v, hv, (h.resolves hi hv).1⟩
  | string _ _ | bool _ _ | null _ | number _ _ => trivial
  | unary id op arg =>
    rw [Expr.isFirstOrder, Bool.and_eq_true, bne_iff_ne] at he
    exact ⟨he.1, Expr.linked h hown arg he.2 huses⟩
  | update id op before arg =>
    cases arg with
    | ident i => exact h.assigns (huses _ List.mem_cons_self) rfl (hown _ he)
    | _ => simp [Expr.isFirstOrder] at he
  | binary id op left right =>
    simp only [Expr.isFirstOrder, Bool.and_eq_true, bne_iff_ne] at he
    obtain ⟨hleft, hright⟩ := List.forall_mem_append.mp huses
    exact ⟨he.1.1.1, he.1.1.2, Expr.linked h hown left he.1.2 hleft,
      Expr.linked h hown right he.2 hright⟩
  | assign id op left right =>
    cases left with
    | ident i =>
      rw [Expr.isFirstOrder, Bool.and_eq_true] at he
      obtain ⟨hleft, hright⟩ := List.forall_mem_cons.mp huses
      refine ⟨h.assigns hleft ?_ (hown _ he.1), Expr.linked h hown right he.2 hright⟩
      split <;> rfl
    | _ => simp [Expr.isFirstOrder] at he
  | cond id test yes no =>
    simp only [Expr.isFirstOrder, Bool.and_eq_true] at he
    obtain ⟨hfirst, hno⟩ := List.forall_mem_append.mp huses
    obtain ⟨htest, hyes⟩ := List.forall_mem_append.mp hfirst
    exact ⟨Expr.linked h hown test he.1.1 htest, Expr.linked h hown yes he.1.2 hyes,
      Expr.linked h hown no he.2 hno⟩
  | call id callee args =>
    cases callee with
    | ident i =>
      rw [Expr.isFirstOrder, Bool.and_eq_true] at he
      rw [Expr.uses_call] at huses
      obtain ⟨hcallee, hargs⟩ := List.forall_mem_append.mp huses
      exact ⟨h.links (hcallee _ List.mem_cons_self) he.1, areLinked h hown args he.2 hargs⟩
    | _ => simp [Expr.isFirstOrder] at he
  | seq id exprs => exact areLinked h hown exprs he huses
  | _ => simp [Expr.isFirstOrder] at he
termination_by structural e

theorem areLinked (h : Δ.Sees t link callable s) (hown : Δ.Has own) (es : List Expr)
    (hes : areFirstOrder callable own es = true) (huses : t.ResolvesAll (exprUses es) s) :
    AreLinked t link Δ es := by
  match es with
  | [] => trivial
  | e :: rest =>
    rw [areFirstOrder, Bool.and_eq_true] at hes
    obtain ⟨he, hrest⟩ := List.forall_mem_append.mp huses
    exact ⟨Expr.linked h hown e hes.1 he, areLinked h hown rest hes.2 hrest⟩
termination_by structural es

end

theorem linked? (h : Δ.Sees t link callable s) (hown : Δ.Has own) {e : Option Expr}
    (he : isFirstOrder? callable own e = true) (huses : t.ResolvesAll (exprUses? e) s) :
    Linked? t link Δ e := by
  cases e with
  | none => trivial
  | some e => exact Expr.linked h hown e he huses

theorem declsLinked (h : Δ.Sees t link callable s) (hown : Δ.Has own) {decls : List Declarator}
    (hdecls : ∀ x ∈ decls,
      (own.contains x.name.name && isFirstOrder? callable own x.init) = true)
    (huses : t.ResolvesAll (declUses decls) s) : DeclsLinked t link Δ decls := by
  induction decls with
  | nil => trivial
  | cons x rest ih =>
    obtain ⟨hx, hrest⟩ := List.forall_mem_cons.mp hdecls
    rw [Bool.and_eq_true] at hx
    obtain ⟨id, name, init⟩ := x
    cases init with
    | none => exact ⟨nofun, trivial, ih hrest huses⟩
    | some e =>
      obtain ⟨hfirst, huses⟩ := List.forall_mem_append.mp huses
      obtain ⟨hname, he⟩ := List.forall_mem_cons.mp hfirst
      exact ⟨fun _ => h.assigns hname rfl (hown _ hx.1), linked? h hown hx.2 he, ih hrest huses⟩

mutual

theorem Stmt.linked (st : Stmt) {s : ScopeId} (h : Δ.Sees t link callable s) (hown : Δ.Has own)
    (hst : st.isFirstOrder callable own = true) (hresolved : st.Resolved t s) :
    st.Linked t link Δ := by
  cases st with
  | block b => exact Block.linked b h hown hst hresolved
  | empty _ => trivial
  | expr id e => exact Expr.linked h hown e hst hresolved
  | var d =>
    rw [Stmt.isFirstOrder, VarDecl.isFirstOrder, Bool.and_eq_true] at hst
    exact ⟨beq_iff_eq.mp hst.1, declsLinked h hown (List.all_eq_true.mp hst.2) hresolved⟩
  | «if» id test yes no =>
    simp only [Stmt.isFirstOrder, Bool.and_eq_true] at hst
    obtain ⟨htest, hyes, hno⟩ := hresolved
    exact ⟨Expr.linked h hown test hst.1.1 htest, Stmt.linked yes h hown hst.1.2 hyes,
      stmtLinked? no h hown hst.2 hno⟩
  | «return» id arg => exact linked? h hown hst hresolved
  | _ => simp [Stmt.isFirstOrder] at hst
termination_by structural st

theorem stmtLinked? (st : Option Stmt) {s : ScopeId} (h : Δ.Sees t link callable s)
    (hown : Δ.Has own) (hst : isFirstOrderStmt? callable own st = true)
    (hresolved : StmtResolved? t st s) : StmtLinked? t link Δ st := by
  match st with
  | none => trivial
  | some st => exact Stmt.linked st h hown hst hresolved
termination_by structural st

theorem Block.linked (b : Block) {s : ScopeId} (h : Δ.Sees t link callable s) (hown : Δ.Has own)
    (hb : b.isFirstOrder callable own = true) (hresolved : b.Resolved t s) :
    b.Linked t link Δ := by
  match b with
  | ⟨id, stmts⟩ =>
    obtain ⟨inner, hopens, hempty, hstmts⟩ := hresolved
    have hempty := hempty (bare_of_firstOrder hb)
    refine ⟨h.opensNone hopens hempty.hoisted ?_, ?_⟩
    · rw [hempty.vars]
      exact nofun
    · exact stmtsLinked stmts (h.empty hopens hempty) hown hb hstmts
termination_by structural b

theorem stmtsLinked (ss : List Stmt) {s : ScopeId} (h : Δ.Sees t link callable s)
    (hown : Δ.Has own) (hss : areFirstOrderStmts callable own ss = true)
    (hresolved : StmtsResolved t ss s) : StmtsLinked t link Δ ss := by
  match ss with
  | [] => trivial
  | st :: rest =>
    rw [areFirstOrderStmts, Bool.and_eq_true] at hss
    exact ⟨Stmt.linked st h hown hss.1 hresolved.1,
      stmtsLinked rest h hown hss.2 hresolved.2⟩
termination_by structural ss

end

end

end EsOptimizer
