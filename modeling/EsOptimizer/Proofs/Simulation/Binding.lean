import EsOptimizer.Proofs.Scope.Entry
import EsOptimizer.Proofs.Simulation.Layout

/-!
# Plain code and its scopes

The names of a plain function mean its own variables. `Layout.Fits` relates a layout to a scope of
the tree: what the layout has is found from the scope. It holds where the body of the function
starts, and the code inside keeps it, so that all of the body is bound (`stmtsBound`).
-/

namespace EsOptimizer

/-! ## What plain code has not -/

/-- Nodes of plain code. -/
def Node.IsPlain : Node → Prop
  | .func _ | .stmt (.function _ _ _) => False
  | _ => True

section

variable {constants own : List String} {deep : Bool}

mutual

theorem Expr.isPlain_nodes (e : Expr) (h : e.isPlain constants own = true) :
    ∀ n ∈ e.nodes deep, n.IsPlain := by
  cases e with
  | ident i => simp [Expr.nodes, Node.IsPlain]
  | string _ _ | bool _ _ | null _ | number _ _ => simp [Expr.nodes, Node.IsPlain]
  | unary id op arg =>
    rw [Expr.isPlain, Bool.and_eq_true] at h
    exact List.forall_mem_cons.mpr ⟨trivial, Expr.isPlain_nodes arg h.2⟩
  | update id op before arg =>
    cases arg with
    | ident i => simp [Expr.nodes, Node.IsPlain]
    | _ => simp [Expr.isPlain] at h
  | binary id op left right =>
    simp only [Expr.isPlain, Bool.and_eq_true] at h
    exact List.forall_mem_cons.mpr ⟨trivial, List.forall_mem_append.mpr
      ⟨Expr.isPlain_nodes left h.1.2, Expr.isPlain_nodes right h.2⟩⟩
  | assign id op left right =>
    cases left with
    | ident i =>
      rw [Expr.isPlain, Bool.and_eq_true] at h
      exact List.forall_mem_cons.mpr ⟨trivial, List.forall_mem_append.mpr
        ⟨by simp [Expr.nodes, Node.IsPlain], Expr.isPlain_nodes right h.2⟩⟩
    | _ => simp [Expr.isPlain] at h
  | cond id test yes no =>
    simp only [Expr.isPlain, Bool.and_eq_true] at h
    exact List.forall_mem_cons.mpr ⟨trivial, List.forall_mem_append.mpr ⟨List.forall_mem_append.mpr
      ⟨Expr.isPlain_nodes test h.1.1, Expr.isPlain_nodes yes h.1.2⟩, Expr.isPlain_nodes no h.2⟩⟩
  | seq id exprs => exact List.forall_mem_cons.mpr ⟨trivial, arePlain_nodes exprs h⟩
  | _ => simp [Expr.isPlain] at h
termination_by structural e

theorem arePlain_nodes (es : List Expr) (h : arePlain constants own es = true) :
    ∀ n ∈ exprNodes deep es, n.IsPlain := by
  match es with
  | [] => exact nofun
  | e :: rest =>
    rw [arePlain, Bool.and_eq_true] at h
    exact List.forall_mem_append.mpr ⟨Expr.isPlain_nodes e h.1, arePlain_nodes rest h.2⟩
termination_by structural es

end

theorem isPlain?_nodes {e : Option Expr} (h : EsOptimizer.isPlain? constants own e = true) :
    ∀ n ∈ exprNodes? deep e, n.IsPlain := by
  cases e with
  | none => exact nofun
  | some e => exact Expr.isPlain_nodes e h

theorem VarDecl.isPlain_nodes {d : VarDecl} (h : d.isPlain constants own = true) :
    ∀ n ∈ d.nodes deep, n.IsPlain := by
  obtain ⟨id, kind, decls⟩ := d
  rw [VarDecl.isPlain, Bool.and_eq_true] at h
  have hdecls : ∀ (ds : List Declarator), (∀ x ∈ ds, isPlain? constants own x.init = true) →
      ∀ n ∈ declNodes deep ds, n.IsPlain := by
    intro ds
    induction ds with
    | nil => exact fun _ => nofun
    | cons d rest ih =>
      intro hds
      obtain ⟨hd, hrest⟩ := List.forall_mem_cons.mp hds
      obtain ⟨_, name, init⟩ := d
      exact List.forall_mem_append.mpr ⟨List.forall_mem_cons.mpr ⟨trivial, isPlain?_nodes hd⟩, ih hrest⟩
  refine List.forall_mem_cons.mpr ⟨trivial, hdecls decls fun x hx => ?_⟩
  exact (Bool.and_eq_true_iff.mp (List.all_eq_true.mp h.2 x hx)).2

theorem headNodes_isPlain {head : Option ForHead}
    (h : head.all (·.isPlain constants own) = true) : ∀ n ∈ headNodes? deep head, n.IsPlain := by
  match head with
  | none => exact nofun
  | some (.decl d) => exact VarDecl.isPlain_nodes h
  | some (.expr e) => exact Expr.isPlain_nodes e h

mutual

theorem Stmt.isPlain_nodes (s : Stmt) {own : List String} (h : s.isPlain constants own = true) :
    ∀ n ∈ s.nodes deep, n.IsPlain := by
  cases s with
  | block b => exact List.forall_mem_cons.mpr ⟨trivial, Block.isPlain_nodes b h⟩
  | empty _ | «break» _ _ | «continue» _ _ => simp [Stmt.nodes, Node.IsPlain]
  | expr id e => exact List.forall_mem_cons.mpr ⟨trivial, Expr.isPlain_nodes e h⟩
  | var d => exact List.forall_mem_cons.mpr ⟨trivial, VarDecl.isPlain_nodes h⟩
  | «if» id test yes no =>
    simp only [Stmt.isPlain, Bool.and_eq_true] at h
    exact List.forall_mem_cons.mpr ⟨trivial, List.forall_mem_append.mpr ⟨List.forall_mem_append.mpr
      ⟨Expr.isPlain_nodes test h.1.1, Stmt.isPlain_nodes yes h.1.2⟩, isPlainStmt?_nodes no h.2⟩⟩
  | «while» id test body =>
    simp only [Stmt.isPlain, Bool.and_eq_true] at h
    exact List.forall_mem_cons.mpr ⟨trivial, List.forall_mem_append.mpr
      ⟨Expr.isPlain_nodes test h.1, Stmt.isPlain_nodes body h.2⟩⟩
  | doWhile id body test =>
    simp only [Stmt.isPlain, Bool.and_eq_true] at h
    exact List.forall_mem_cons.mpr ⟨trivial, List.forall_mem_append.mpr
      ⟨Stmt.isPlain_nodes body h.2, Expr.isPlain_nodes test h.1⟩⟩
  | «for» id init test update body =>
    simp only [Stmt.isPlain, Bool.and_eq_true] at h
    obtain ⟨⟨⟨hinit, htest⟩, hupdate⟩, hbody⟩ := h
    refine List.forall_mem_cons.mpr ⟨trivial, List.forall_mem_append.mpr
      ⟨List.forall_mem_append.mpr ⟨List.forall_mem_append.mpr ⟨?_, ?_⟩, ?_⟩, ?_⟩⟩
    · exact headNodes_isPlain hinit
    · exact isPlain?_nodes htest
    · exact isPlain?_nodes hupdate
    · exact Stmt.isPlain_nodes body hbody
  | labeled id label body => exact List.forall_mem_cons.mpr ⟨trivial, Stmt.isPlain_nodes body h⟩
  | «return» id arg => exact List.forall_mem_cons.mpr ⟨trivial, isPlain?_nodes h⟩
  | throw id arg => exact List.forall_mem_cons.mpr ⟨trivial, Expr.isPlain_nodes arg h⟩
  | «try» id block handler finalizer =>
    simp only [Stmt.isPlain, Bool.and_eq_true] at h
    exact List.forall_mem_cons.mpr ⟨trivial, List.forall_mem_append.mpr ⟨List.forall_mem_append.mpr
      ⟨Block.isPlain_nodes block h.1.1, isPlainHandler?_nodes handler h.1.2⟩,
      isPlainBlock?_nodes finalizer h.2⟩⟩
  | _ => simp [Stmt.isPlain] at h
termination_by structural s

theorem isPlainStmt?_nodes (s : Option Stmt) {own : List String}
    (h : isPlainStmt? constants s own = true) : ∀ n ∈ stmtNodes? deep s, n.IsPlain := by
  match s with
  | none => exact nofun
  | some s => exact Stmt.isPlain_nodes s h
termination_by structural s

theorem Block.isPlain_nodes (b : Block) {own : List String} (h : b.isPlain constants own = true) :
    ∀ n ∈ b.nodes deep, n.IsPlain := by
  match b with
  | ⟨_, stmts⟩ => exact arePlainStmts_nodes stmts h
termination_by structural b

theorem isPlainBlock?_nodes (b : Option Block) {own : List String}
    (h : isPlainBlock? constants b own = true) : ∀ n ∈ blockNodes? deep b, n.IsPlain := by
  match b with
  | none => exact nofun
  | some b => exact Block.isPlain_nodes b h
termination_by structural b

theorem isPlainHandler?_nodes (c : Option CatchClause) {own : List String}
    (h : isPlainHandler? constants c own = true) : ∀ n ∈ handlerNodes? deep c, n.IsPlain := by
  match c with
  | none => exact nofun
  | some ⟨_, none, body⟩ => exact Block.isPlain_nodes body h
  | some ⟨_, some param, body⟩ =>
    exact List.forall_mem_cons.mpr ⟨trivial, Block.isPlain_nodes body h⟩
termination_by structural c

theorem arePlainStmts_nodes (ss : List Stmt) {own : List String}
    (h : arePlainStmts constants ss own = true) : ∀ n ∈ stmtNodes deep ss, n.IsPlain := by
  match ss with
  | [] => exact nofun
  | s :: rest =>
    rw [arePlainStmts, Bool.and_eq_true] at h
    exact List.forall_mem_append.mpr ⟨Stmt.isPlain_nodes s h.1, arePlainStmts_nodes rest h.2⟩
termination_by structural ss

end

theorem flat_of_plain {ns : List Node} (h : ∀ n ∈ ns, n.IsPlain) : Flat ns := fun _ hf => h _ hf

theorem functionDecls_of_plain {ns : List Node} (h : ∀ n ∈ ns, n.IsPlain) :
    ns.filterMap Node.functionDecl? = [] := by
  rw [List.filterMap_eq_nil_iff]
  intro n hn
  have hplain := h n hn
  unfold Node.functionDecl?
  split
  · exact hplain.elim
  · rfl

theorem bare_of_plain {stmts : List Stmt} (h : arePlainStmts constants stmts own = true) :
    Bare stmts := by
  intro d hd
  induction stmts with
  | nil => cases hd
  | cons s rest ih =>
    rw [arePlainStmts, Bool.and_eq_true] at h
    rcases List.mem_cons.mp hd with rfl | hd
    · rw [Stmt.isPlain, VarDecl.isPlain, Bool.and_eq_true] at h
      exact beq_iff_eq.mp h.1.1
    · exact ih h.2 hd

/-- The body of a function has variables of the function only: there are no functions in it, and it
declares nothing for the body as a block. -/
structure Func.HasFlatBody (f : Func) : Prop where
  bare : Bare f.body.stmts
  flat : Flat (stmtNodes true f.body.stmts)
  noFunctions : functionDecls f.body.stmts = []

theorem Func.hasFlatBody_of_plain {f : Func} (h : f.hasPlainBody constants = true) :
    f.HasFlatBody where
  bare := bare_of_plain h
  flat := flat_of_plain (arePlainStmts_nodes _ h)
  noFunctions := functionDecls_of_plain (arePlainStmts_nodes _ h)

end

/-! ## Layouts and scopes -/

/-- The names of constants mean built-in globals. -/
def AreGlobal (constants : List String) : Prop := ∀ c ∈ constants, (Host.global? c).isSome = true

theorem AreGlobal.ne_arguments {constants : List String} (h : AreGlobal constants) {name : String}
    (hname : name ∈ constants) : name ≠ "arguments" := by
  rintro rfl
  have hnone : Host.global? "arguments" = none := by decide
  rw [← Option.not_isSome_iff_eq_none] at hnone
  exact hnone (h _ hname)

/-- The function with the scope `fs` writes the variables of the scopes inside it by itself. -/
def ScopeTree.OwnWrites (t : ScopeTree) (fs : ScopeId) : Prop :=
  ∀ s, t.Encloses fs s → ∀ x ∈ (t.scope s).vars, ∀ site ∈ (t.var x.2).writes, site.fnScope = fs

/-- The variables of a layout are found from a scope. -/
structure Layout.Found (t : ScopeTree) (s : ScopeId) (Δ : Layout) : Prop where
  ok : t.Ok
  declared : ∀ v ∈ Δ.vars, (t.var v).kind ≠ .implicit
  finds : ∀ {name v}, Δ.lookup name = some v → t.lookup s name = some v
  around : ∀ v ∈ Δ.vars, (t.var v).scope ≤ s

/-- The variables of a layout are found from a scope of the function with the scope `fs`, and the
names of constants that it lacks are declared nowhere. -/
structure Layout.Fits (t : ScopeTree) (constants : List String) (fs s : ScopeId) (Δ : Layout) :
    Prop extends Δ.Found t s where
  global : AreGlobal constants
  ownWrites : t.OwnWrites fs
  inner : fs ≠ ScopeTree.root
  valid : Δ.Valid t fs
  encloses : t.Encloses fs s
  fnScope : (t.scope s).fnScope = fs
  undeclared : ∀ c ∈ constants, Δ.lookup c = none →
    ∀ v, t.lookup s c = some v → (t.var v).kind = .implicit

section

variable {t : ScopeTree} {constants own : List String} {fs s : ScopeId} {Δ : Layout}

/-- From a scope without variables the same is found as from the one around it. -/
theorem ScopeTree.Opens.lookup_eq {id : NodeId} {inner : ScopeId} (h : t.Opens id s inner)
    (ht : t.Ok) (hempty : t.IsEmpty inner) (name : String) : t.lookup inner name = t.lookup s name := by
  rw [ScopeTree.lookup_eq ht, hempty.vars, h.parent]
  rfl

namespace Layout.Found

/-- A scope without variables. -/
theorem empty (h : Δ.Found t s) {id : NodeId} {inner : ScopeId} (hopens : t.Opens id s inner)
    (hempty : t.IsEmpty inner) : Δ.Found t inner where
  ok := h.ok
  declared := h.declared
  finds := fun hv => (hopens.lookup_eq h.ok hempty _).trans (h.finds hv)
  around := fun v hv => (h.around v hv).trans (h.ok.parents inner s hopens.parent).le

/-- A scope that is opened inside does not matter to the variables of the layout. -/
theorem opensNone (h : Δ.Found t s) {id : NodeId} {inner : ScopeId}
    (hopens : t.Opens id s inner) (hhoisted : (t.scope inner).hoisted = [])
    (hinitial : ∀ x ∈ (t.scope inner).vars, t.initialValue x.2 = none) : t.OpensNone Δ id := by
  have hlt : s < inner := h.ok.parents inner s hopens.parent
  have hinner {q : ScopeId} (hq : t.scopeOf id = some q) : q = inner :=
    Option.some.inj (hq.symm.trans hopens.scopeOf)
  refine ⟨fun q hq => hinner hq ▸ hhoisted, fun q hq => hinner hq ▸ hinitial, fun q hq v hv heq => ?_⟩
  have hle := h.around v hv
  rw [heq, hinner hq] at hle
  exact absurd hlt (Nat.not_lt.mpr hle)

/-- The name of an own variable means it. -/
theorem resolves (h : Δ.Found t s) {x : Ident × SiteKind} {v : VarId}
    (hx : t.Resolves s x) (hv : Δ.lookup x.1.name = some v) :
    t.varOf x.1.id = some v ∧ t.siteKind x.1.id = some x.2 := by
  have hfound := h.finds hv
  rcases hx with ⟨u, hu, hvar, hkind⟩ | ⟨-, himplicit⟩
  · rw [hfound] at hu
    cases hu
    exact ⟨hvar, hkind⟩
  · exact absurd (himplicit v hfound) (h.declared v (Layout.mem_vars_of_lookup hv))

/-- An own name that is written. -/
theorem assigns (h : Δ.Found t s) {i : Ident} {kind : SiteKind}
    (hx : t.Resolves s (i, kind)) (hkind : kind.isWrite = true)
    (hi : (Δ.lookup i.name).isSome = true) : t.Assigns Δ i := by
  obtain ⟨v, hv⟩ := Option.isSome_iff_exists.mp hi
  obtain ⟨hvar, hsite⟩ := h.resolves hx hv
  refine ⟨v, hv, ?_⟩
  rw [ScopeTree.writtenBy?, hsite, hvar]
  exact if_pos hkind

end Layout.Found

/-- Variables of a function are declared ones. -/
theorem Layout.Valid.declared (h : Δ.Valid t fs) : ∀ v ∈ Δ.vars, (t.var v).kind ≠ .implicit := by
  intro v hv
  rcases (h.owns v hv).kind with hk | hk | hk <;> rw [hk] <;> nofun

theorem ScopeTree.OwnWrites.owns (h : t.OwnWrites fs) (ht : t.Ok) (hfs : fs ≠ ScopeTree.root)
    {inner : ScopeId} (hinner : t.Encloses fs inner) (hfn : (t.scope inner).fnScope = fs)
    {x : String × VarId} (hx : x ∈ (t.scope inner).vars)
    (hkind : (t.var x.2).kind = .var ∨ (t.var x.2).kind = .param ∨ (t.var x.2).kind = .catchParam) :
    t.Owns fs x.2 := by
  obtain ⟨hlt, hscope, -⟩ := ht.listed inner x hx
  have hfn' : (t.var x.2).fnScope = fs := by rw [(ht.placed x.2 hlt).2, hscope, hfn]
  refine ⟨⟨hfn', ?_⟩, ?_, hkind⟩
  · rw [Variable.hasForeignWrites, List.any_eq_false]
    intro site hsite
    rw [hfn', h inner hinner x hx site hsite]
    simp
  · rw [Variable.isGlobal, hscope]
    have hle : fs ≤ inner := hinner.le ht
    have hpos : 0 < fs := Nat.pos_of_ne_zero hfs
    exact beq_eq_false_iff_ne.mpr (Nat.ne_of_gt (hpos.trans_le hle))

namespace Layout.Fits

/-- A scope without variables. -/
theorem empty (h : Δ.Fits t constants fs s) {id : NodeId} {inner : ScopeId}
    (hopens : t.Opens id s inner) (hempty : t.IsEmpty inner) : Δ.Fits t constants fs inner where
  toFound := h.toFound.empty hopens hempty
  global := h.global
  ownWrites := h.ownWrites
  inner := h.inner
  valid := h.valid
  encloses := .outer hopens.parent h.encloses
  fnScope := hopens.fnScope.trans h.fnScope
  undeclared := fun c hc hnone v hv =>
    h.undeclared c hc hnone v ((hopens.lookup_eq h.ok hempty c).symm.trans hv)

/-- The scope of a handler. -/
theorem caught (h : Δ.Fits t constants fs s) {id : NodeId} {inner : ScopeId} {p : Ident}
    {v : VarId} (hopens : t.Opens id s inner) (hcaught : t.HasCaught inner p v) :
    v ∉ Δ.vars ∧ t.Owns fs v ∧ Layout.Fits t constants fs inner ((p.name, v) :: Δ) := by
  have hlt : s < inner := h.ok.parents inner s hopens.parent
  have hencl : t.Encloses fs inner := .outer hopens.parent h.encloses
  have hfn := hopens.fnScope.trans h.fnScope
  have hmem : (p.name, v) ∈ (t.scope inner).vars := by simp [hcaught.vars]
  have hscope : (t.var v).scope = inner := (h.ok.listed inner _ hmem).2.1
  have howns : t.Owns fs v := h.ownWrites.owns h.ok h.inner hencl hfn hmem (Or.inr (Or.inr hcaught.kind))
  have hv : v ∉ Δ.vars := fun hv => absurd (h.around v hv) (Nat.not_le.mpr (hscope ▸ hlt))
  have hlookup (name : String) : t.lookup inner name =
      if name = p.name then some v else t.lookup s name := by
    rw [ScopeTree.lookup_eq h.ok, hcaught.vars, hopens.parent, List.lookup_cons]
    by_cases hname : name = p.name
    · rw [if_pos hname, beq_iff_eq.mpr hname]
    · rw [if_neg hname, beq_eq_false_iff_ne.mpr hname]
      rfl
  have hcons (name : String) : List.lookup name ((p.name, v) :: Δ) =
      if name = p.name then some v else Δ.lookup name := by
    rw [List.lookup_cons]
    by_cases hname : name = p.name
    · rw [if_pos hname, beq_iff_eq.mpr hname]
    · rw [if_neg hname, beq_eq_false_iff_ne.mpr hname]
  have hvalid : Layout.Valid t fs ((p.name, v) :: Δ) := h.valid.cons hv howns
  refine ⟨hv, howns, ⟨h.ok, hvalid.declared, fun {name u} hu => ?_, fun u hu => ?_⟩, h.global,
    h.ownWrites, h.inner, hvalid, hencl, hfn, fun c hc hnone u hu => ?_⟩
  · rw [hcons] at hu
    rw [hlookup]
    split
    · rename_i hname
      rwa [if_pos hname] at hu
    · rename_i hname
      rw [if_neg hname] at hu
      exact h.finds hu
  · rcases List.mem_cons.mp hu with rfl | hu
    · exact hscope.le
    · exact (h.around u hu).trans hlt.le
  · rw [hcons] at hnone
    split at hnone
    · cases hnone
    · rename_i hname
      rw [hlookup, if_neg hname] at hu
      exact h.undeclared c hc hnone u hu

end Layout.Fits

/-- The undeclared name of a global constant. -/
theorem isConstant_of_implicit (ht : t.Ok) {i : Ident} {v : VarId} (hlookup : t.lookup s i.name = some v)
    (hvar : t.varOf i.id = some v) (hkind : (t.var v).kind = .implicit)
    (hglobal : (Host.global? i.name).isSome = true) : t.IsConstant i v := by
  obtain ⟨a, -, hmem⟩ := ScopeTree.exists_encloses_of_lookup ht hlookup
  obtain ⟨hlt, hplace, hname⟩ := ht.listed a _ hmem
  obtain ⟨hscope, hdecl, hinitial⟩ := ht.implicit v hlt hkind
  have hname : (t.var v).name = i.name := hname
  have hroot : a = ScopeTree.root := hplace.symm.trans hscope
  refine ⟨hvar, hroot ▸ hmem, ?_, ?_, ?_, hglobal⟩
  · rw [Variable.key, hdecl, hname]
  · rw [(ht.placed v hlt).2, hscope, ht.rootScope]
  · rw [hinitial, hname]

/-! ## Plain code is bound -/

/-- The names in force belong to a layout. -/
def Layout.Has (Δ : Layout) (own : List String) : Prop :=
  ∀ name, own.contains name = true → (Δ.lookup name).isSome = true

mutual

theorem Expr.bound (hfits : Δ.Fits t constants fs s) (hown : Δ.Has own) (e : Expr)
    (hplain : e.isPlain constants own = true) (huses : t.ResolvesAll e.uses s) :
    e.Bound t constants Δ := by
  cases e with
  | ident i =>
    have hi : t.Resolves s (i, .read) := huses _ List.mem_cons_self
    rw [Expr.isPlain, Bool.or_eq_true] at hplain
    rw [Expr.Bound]
    cases hv : Δ.lookup i.name with
    | some v => exact Or.inl ⟨v, rfl, (hfits.resolves hi hv).1⟩
    | none =>
      have hconst : i.name ∈ constants := by
        rcases hplain with h | h
        · have := hown _ h
          rw [hv] at this
          cases this
        · exact List.contains_iff_mem.mp h
      refine Or.inr ⟨rfl, hconst, ?_⟩
      rcases hi with ⟨v, hlookup, hvar, -⟩ | ⟨hname, -⟩
      · exact ⟨v, isConstant_of_implicit hfits.ok hlookup hvar (hfits.undeclared _ hconst hv v hlookup)
          (hfits.global _ hconst)⟩
      · exact absurd hname (hfits.global.ne_arguments hconst)
  | string _ _ | bool _ _ | null _ | number _ _ => trivial
  | unary id op arg =>
    rw [Expr.isPlain, Bool.and_eq_true, bne_iff_ne] at hplain
    exact ⟨hplain.1, Expr.bound hfits hown arg hplain.2 huses⟩
  | update id op before arg =>
    cases arg with
    | ident i => exact hfits.assigns (huses _ List.mem_cons_self) rfl (hown _ hplain)
    | _ => simp [Expr.isPlain] at hplain
  | binary id op left right =>
    simp only [Expr.isPlain, Bool.and_eq_true, bne_iff_ne] at hplain
    obtain ⟨hleft, hright⟩ := List.forall_mem_append.mp huses
    exact ⟨hplain.1.1.1, hplain.1.1.2, Expr.bound hfits hown left hplain.1.2 hleft,
      Expr.bound hfits hown right hplain.2 hright⟩
  | assign id op left right =>
    cases left with
    | ident i =>
      rw [Expr.isPlain, Bool.and_eq_true] at hplain
      obtain ⟨hleft, hright⟩ := List.forall_mem_cons.mp huses
      refine ⟨hfits.assigns hleft ?_ (hown _ hplain.1), Expr.bound hfits hown right hplain.2 hright⟩
      split <;> rfl
    | _ => simp [Expr.isPlain] at hplain
  | cond id test yes no =>
    simp only [Expr.isPlain, Bool.and_eq_true] at hplain
    obtain ⟨hfirst, hno⟩ := List.forall_mem_append.mp huses
    obtain ⟨htest, hyes⟩ := List.forall_mem_append.mp hfirst
    exact ⟨Expr.bound hfits hown test hplain.1.1 htest, Expr.bound hfits hown yes hplain.1.2 hyes,
      Expr.bound hfits hown no hplain.2 hno⟩
  | seq id exprs => exact areBound hfits hown exprs hplain huses
  | _ => simp [Expr.isPlain] at hplain
termination_by structural e

theorem areBound (hfits : Δ.Fits t constants fs s) (hown : Δ.Has own) (es : List Expr)
    (hplain : arePlain constants own es = true) (huses : t.ResolvesAll (exprUses es) s) :
    AreBound t constants Δ es := by
  match es with
  | [] => trivial
  | e :: rest =>
    rw [arePlain, Bool.and_eq_true] at hplain
    obtain ⟨he, hrest⟩ := List.forall_mem_append.mp huses
    exact ⟨Expr.bound hfits hown e hplain.1 he, areBound hfits hown rest hplain.2 hrest⟩
termination_by structural es

end

theorem bound? (hfits : Δ.Fits t constants fs s) (hown : Δ.Has own) {e : Option Expr}
    (hplain : EsOptimizer.isPlain? constants own e = true) (huses : t.ResolvesAll (exprUses? e) s) :
    Bound? t constants Δ e := by
  cases e with
  | none => trivial
  | some e => exact Expr.bound hfits hown e hplain huses

theorem declsBound (hfits : Δ.Fits t constants fs s) (hown : Δ.Has own) {decls : List Declarator}
    (hplain : ∀ x ∈ decls, (own.contains x.name.name && isPlain? constants own x.init) = true)
    (huses : t.ResolvesAll (declUses decls) s) : DeclsBound t constants Δ decls := by
  induction decls with
  | nil => trivial
  | cons x rest ih =>
    obtain ⟨hx, hrest⟩ := List.forall_mem_cons.mp hplain
    rw [Bool.and_eq_true] at hx
    obtain ⟨xid, name, init⟩ := x
    cases init with
    | none => exact ⟨nofun, trivial, ih hrest huses⟩
    | some e =>
      obtain ⟨hfirst, huses⟩ := List.forall_mem_append.mp huses
      obtain ⟨hname, he⟩ := List.forall_mem_cons.mp hfirst
      exact ⟨fun _ => hfits.assigns hname rfl (hown _ hx.1), bound? hfits hown hx.2 he,
        ih hrest huses⟩

theorem VarDecl.bound (hfits : Δ.Fits t constants fs s) (hown : Δ.Has own) {d : VarDecl}
    (hplain : d.isPlain constants own = true) (huses : t.ResolvesAll (declUses d.decls) s) :
    d.Bound t constants Δ := by
  rw [VarDecl.isPlain, Bool.and_eq_true] at hplain
  exact ⟨beq_iff_eq.mp hplain.1, declsBound hfits hown (List.all_eq_true.mp hplain.2) huses⟩

theorem headBound? (hfits : Δ.Fits t constants fs s) (hown : Δ.Has own) {head : Option ForHead}
    (hplain : head.all (·.isPlain constants own) = true) (huses : t.ResolvesAll (headUses? head) s) :
    HeadBound? t constants Δ head := by
  match head with
  | none => trivial
  | some (.decl d) => exact VarDecl.bound hfits hown hplain huses
  | some (.expr e) => exact Expr.bound hfits hown e hplain huses

mutual

theorem Stmt.bound (st : Stmt) {own : List String} {s : ScopeId} {Δ : Layout}
    (hfits : Δ.Fits t constants fs s) (hown : Δ.Has own)
    (hplain : st.isPlain constants own = true) (h : st.Resolved t s) :
    st.Bound t constants fs Δ := by
  cases st with
  | block b => exact Block.bound b hfits hown hplain h
  | empty _ | «break» _ _ | «continue» _ _ => trivial
  | expr id e => exact Expr.bound hfits hown e hplain h
  | var d => exact VarDecl.bound hfits hown hplain h
  | «if» id test yes no =>
    simp only [Stmt.isPlain, Bool.and_eq_true] at hplain
    obtain ⟨htest, hyes, hno⟩ := h
    exact ⟨Expr.bound hfits hown test hplain.1.1 htest,
      Stmt.bound yes hfits hown hplain.1.2 hyes, stmtBound? no hfits hown hplain.2 hno⟩
  | «while» id test body =>
    simp only [Stmt.isPlain, Bool.and_eq_true] at hplain
    exact ⟨Expr.bound hfits hown test hplain.1 h.1, Stmt.bound body hfits hown hplain.2 h.2⟩
  | doWhile id body test =>
    simp only [Stmt.isPlain, Bool.and_eq_true] at hplain
    exact ⟨Expr.bound hfits hown test hplain.1 h.2, Stmt.bound body hfits hown hplain.2 h.1⟩
  | «for» id init test update body =>
    simp only [Stmt.isPlain, Bool.and_eq_true] at hplain
    obtain ⟨⟨⟨hinit, htest⟩, hupdate⟩, hbody⟩ := hplain
    have hbare : BareHead init := by
      match init with
      | none => trivial
      | some (.expr _) => trivial
      | some (.decl d) =>
        rw [Option.all_some, ForHead.isPlain, VarDecl.isPlain, Bool.and_eq_true] at hinit
        exact beq_iff_eq.mp hinit.1
    rw [Stmt.Resolved] at h
    obtain ⟨hnone, hinit', htest', hupdate', hbody'⟩ := h hbare
    have hopens : t.OpensNone Δ id := by
      constructor <;> intro q hq <;> rw [hnone] at hq <;> cases hq
    exact ⟨hopens, headBound? hfits hown hinit hinit',
      bound? hfits hown htest htest', bound? hfits hown hupdate hupdate',
      Stmt.bound body hfits hown hbody hbody'⟩
  | labeled id label body => exact Stmt.bound body hfits hown hplain h
  | «return» id arg => exact bound? hfits hown hplain h
  | throw id arg => exact Expr.bound hfits hown arg hplain h
  | «try» id block handler finalizer =>
    simp only [Stmt.isPlain, Bool.and_eq_true] at hplain
    obtain ⟨hblock, hhandler, hfinalizer⟩ := h
    exact ⟨Block.bound block hfits hown hplain.1.1 hblock,
      handlerBound? handler hfits hown hplain.1.2 hhandler,
      blockBound? finalizer hfits hown hplain.2 hfinalizer⟩
  | _ => simp [Stmt.isPlain] at hplain
termination_by structural st

theorem stmtBound? (st : Option Stmt) {own : List String} {s : ScopeId} {Δ : Layout}
    (hfits : Δ.Fits t constants fs s) (hown : Δ.Has own)
    (hplain : isPlainStmt? constants st own = true) (h : StmtResolved? t st s) :
    StmtBound? t constants fs st Δ := by
  match st with
  | none => trivial
  | some st => exact Stmt.bound st hfits hown hplain h
termination_by structural st

theorem Block.bound (b : Block) {own : List String} {s : ScopeId} {Δ : Layout}
    (hfits : Δ.Fits t constants fs s) (hown : Δ.Has own)
    (hplain : b.isPlain constants own = true) (h : b.Resolved t s) :
    b.Bound t constants fs Δ := by
  match b with
  | ⟨id, stmts⟩ =>
    obtain ⟨inner, hopens, hempty, hstmts⟩ := h
    have hempty := hempty (bare_of_plain hplain)
    refine ⟨hfits.opensNone hopens hempty.hoisted ?_, ?_⟩
    · rw [hempty.vars]
      exact nofun
    · exact stmtsBound stmts (hfits.empty hopens hempty) hown hplain hstmts
termination_by structural b

theorem blockBound? (b : Option Block) {own : List String} {s : ScopeId} {Δ : Layout}
    (hfits : Δ.Fits t constants fs s) (hown : Δ.Has own)
    (hplain : isPlainBlock? constants b own = true) (h : BlockResolved? t b s) :
    BlockBound? t constants fs b Δ := by
  match b with
  | none => trivial
  | some b => exact Block.bound b hfits hown hplain h
termination_by structural b

theorem handlerBound? (c : Option CatchClause) {own : List String} {s : ScopeId} {Δ : Layout}
    (hfits : Δ.Fits t constants fs s) (hown : Δ.Has own)
    (hplain : isPlainHandler? constants c own = true) (h : HandlerResolved? t c s) :
    HandlerBound? t constants fs c Δ := by
  match c with
  | none => trivial
  | some ⟨id, none, body⟩ =>
    obtain ⟨inner, hopens, hempty, hbody⟩ := h
    have hempty : t.IsEmpty inner := hempty
    refine ⟨hfits.opensNone hopens hempty.hoisted ?_, ?_⟩
    · rw [hempty.vars]
      exact nofun
    · exact Block.bound body (hfits.empty hopens hempty) hown hplain hbody
  | some ⟨id, some param, body⟩ =>
    obtain ⟨inner, hopens, ⟨v, hcaught⟩, hbody⟩ := h
    obtain ⟨hv, hvowns, hfits'⟩ := hfits.caught hopens hcaught
    refine ⟨hfits.opensNone hopens hcaught.hoisted ?_, v, ?_, hv, hvowns, ?_⟩
    · rw [hcaught.vars]
      exact List.forall_mem_singleton.mpr hcaught.initial
    · rw [ScopeTree.writtenBy?, hcaught.siteKind, hcaught.varOf]
      rfl
    · refine Block.bound body hfits' (fun name hname => ?_) hplain hbody
      rw [List.lookup_cons]
      split
      · rfl
      · rename_i hne
        rw [List.contains_cons, hne, Bool.false_or] at hname
        exact hown name hname
termination_by structural c

theorem stmtsBound (ss : List Stmt) {own : List String} {s : ScopeId} {Δ : Layout}
    (hfits : Δ.Fits t constants fs s) (hown : Δ.Has own)
    (hplain : arePlainStmts constants ss own = true) (h : StmtsResolved t ss s) :
    StmtsBound t constants fs ss Δ := by
  match ss with
  | [] => trivial
  | st :: rest =>
    rw [arePlainStmts, Bool.and_eq_true] at hplain
    exact ⟨Stmt.bound st hfits hown hplain.1 h.1, stmtsBound rest hfits hown hplain.2 h.2⟩
termination_by structural ss

end

end

end EsOptimizer
