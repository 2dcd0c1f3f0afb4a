import EsOptimizer.Proofs.Analysis.Walk
import EsOptimizer.Proofs.Run.Plain

/-!
# Names, variables and values

A run knows variables by name, and the analysis by number. A `Layout` says which variable each name
in force stands for, innermost first; together with the value of each variable it gives the
variables of a run (`Layout.env`).

`Expr.Bound` and `Stmt.Bound` say of plain code that its names mean the variables of a layout, and
that the scopes which it opens hold no variables but the parameters of handlers.
-/

namespace EsOptimizer

/-- The variable that each name in force stands for, innermost first. -/
abbrev Layout := List (String × VarId)

/-- A value of every variable. -/
abbrev Valuation := VarId → Primitive

/-- A valuation that differs at one variable. -/
def Valuation.set (ρ : Valuation) (v : VarId) (value : Primitive) : Valuation :=
  fun u => if u = v then value else ρ u

namespace Layout

def vars (Δ : Layout) : List VarId := Δ.map (·.2)

/-- The variables of a run. -/
def env (Δ : Layout) (ρ : Valuation) : Env := Δ.map fun e => (e.1, ρ e.2)

theorem mem_vars_of_lookup {Δ : Layout} {name : String} {v : VarId} (h : Δ.lookup name = some v) :
    v ∈ Δ.vars := by
  induction Δ with
  | nil => cases h
  | cons e rest ih =>
    rw [List.lookup_cons] at h
    split at h
    · cases h
      exact List.mem_cons_self
    · exact List.mem_cons_of_mem _ (ih h)

theorem lookup_env (Δ : Layout) (ρ : Valuation) (name : String) :
    (Δ.env ρ).lookup name = (Δ.lookup name).map ρ := by
  induction Δ with
  | nil => rfl
  | cons e rest ih =>
    rw [env, List.map_cons, List.lookup_cons, List.lookup_cons]
    split
    · rfl
    · exact ih

theorem read_env {Δ : Layout} (ρ : Valuation) {name : String} {v : VarId}
    (h : Δ.lookup name = some v) : (Δ.env ρ).read name = ρ v := by
  rw [Env.read, lookup_env, h]
  rfl

theorem env_congr {Δ : Layout} {ρ ρ' : Valuation} (h : ∀ v ∈ Δ.vars, ρ' v = ρ v) :
    Δ.env ρ' = Δ.env ρ := by
  refine List.map_congr_left fun e he => ?_
  rw [h e.2 (List.mem_map_of_mem he)]

theorem eq_of_env_eq {Δ : Layout} {ρ ρ' : Valuation} (h : Δ.env ρ' = Δ.env ρ) {v : VarId}
    (hv : v ∈ Δ.vars) : ρ' v = ρ v := by
  obtain ⟨e, he, rfl⟩ := List.mem_map.mp hv
  exact congrArg Prod.snd (List.map_inj_left.mp h e he)

theorem env_set_of_not_mem {Δ : Layout} (ρ : Valuation) {v : VarId} (value : Primitive)
    (h : v ∉ Δ.vars) : Δ.env (ρ.set v value) = Δ.env ρ := by
  refine env_congr fun u hu => if_neg ?_
  rintro rfl
  exact h hu

/-- Assigning a name changes the variable that it stands for, and no other. -/
theorem assign_env {Δ : Layout} (hd : Δ.vars.Nodup) (ρ : Valuation) {name : String} {v : VarId}
    (value : Primitive) (h : Δ.lookup name = some v) :
    (Δ.env ρ).assign name value = Δ.env (ρ.set v value) := by
  induction Δ with
  | nil => cases h
  | cons e rest ih =>
    obtain ⟨x, u⟩ := e
    obtain ⟨hu, hrest⟩ := List.nodup_cons.mp hd
    rw [List.lookup_cons] at h
    have henv (σ : Valuation) : env ((x, u) :: rest) σ = (x, σ u) :: env rest σ := rfl
    rw [henv, henv, Env.assign]
    split at h
    · rename_i hx
      cases h
      rw [if_pos (beq_iff_eq.mp hx), Valuation.set, if_pos rfl]
      exact congrArg _ (env_set_of_not_mem ρ value hu).symm
    · rename_i hx
      rw [if_neg (beq_eq_false_iff_ne.mp hx), ih hrest h]
      have hne : u ≠ v := fun huv => hu (huv ▸ mem_vars_of_lookup h)
      rw [Valuation.set, if_neg hne]

end Layout

/-! ## Variables of a function -/

namespace ScopeTree

/-- The state follows a variable in the body with the scope `fs`: no other body writes it. -/
structure IsFollowed (scopes : ScopeTree) (fs : ScopeId) (v : VarId) : Prop where
  fnScope : (scopes.var v).fnScope = fs
  ownWrites : (scopes.var v).hasForeignWrites = false

/-- A variable that the body of the function with the scope `fs` follows by itself. -/
structure Owns (scopes : ScopeTree) (fs : ScopeId) (v : VarId) : Prop
    extends scopes.IsFollowed fs v where
  notGlobal : (scopes.var v).isGlobal = false
  kind : (scopes.var v).kind = .var ∨ (scopes.var v).kind = .param ∨
    (scopes.var v).kind = .catchParam

/-- An undeclared name of a global constant. -/
structure IsConstant (scopes : ScopeTree) (i : Ident) (v : VarId) : Prop where
  varOf : scopes.varOf i.id = some v
  listed : (i.name, v) ∈ (scopes.scope root).vars
  key : (scopes.var v).key = .global i.name
  fnScope : (scopes.var v).fnScope = root
  initial : (scopes.var v).initial = Host.global? i.name
  global : (Host.global? i.name).isSome = true

/-- A name that is assigned, and its variable. -/
def Assigns (scopes : ScopeTree) (Δ : Layout) (i : Ident) : Prop :=
  ∃ v, Δ.lookup i.name = some v ∧ scopes.writtenBy? (.name i) = some v

/-- A node does not open a scope that matters to the variables of a layout. -/
structure OpensNone (scopes : ScopeTree) (Δ : Layout) (id : NodeId) : Prop where
  hoisted : ∀ s, scopes.scopeOf id = some s → (scopes.scope s).hoisted = []
  initial : ∀ s, scopes.scopeOf id = some s → ∀ x ∈ (scopes.scope s).vars,
    scopes.initialValue x.2 = none
  apart : ∀ s, scopes.scopeOf id = some s → ∀ v ∈ Δ.vars, (scopes.var v).scope ≠ s

theorem varOf_of_writtenBy? {scopes : ScopeTree} {i : Ident} {v : VarId}
    (h : scopes.writtenBy? (.name i) = some v) : scopes.varOf i.id = some v := by
  rw [writtenBy?] at h
  split at h
  · exact h
  · cases h

end ScopeTree

/-- The variables of a layout are different ones, and the function's own. -/
structure Layout.Valid (scopes : ScopeTree) (fs : ScopeId) (Δ : Layout) : Prop where
  nodup : Δ.vars.Nodup
  owns : ∀ v ∈ Δ.vars, scopes.Owns fs v

theorem Layout.Valid.cons {scopes : ScopeTree} {fs : ScopeId} {Δ : Layout}
    (h : Δ.Valid scopes fs) {name : String} {v : VarId} (hv : v ∉ Δ.vars)
    (howns : scopes.Owns fs v) : Layout.Valid scopes fs ((name, v) :: Δ) where
  nodup := List.nodup_cons.mpr ⟨hv, h.nodup⟩
  owns := List.forall_mem_cons.mpr ⟨howns, h.owns⟩

/-! ## Code -/

section

variable (scopes : ScopeTree) (constants : List String)

mutual

/-- An expression is plain, and its names mean the variables of a layout. -/
def Expr.Bound (Δ : Layout) : Expr → Prop
  | .ident i => (∃ v, Δ.lookup i.name = some v ∧ scopes.varOf i.id = some v) ∨
    (Δ.lookup i.name = none ∧ i.name ∈ constants ∧ ∃ v, scopes.IsConstant i v)
  | .string _ _ | .bool _ _ | .null _ | .number _ _ => True
  | .unary _ op arg => op ≠ .delete ∧ arg.Bound Δ
  | .update _ _ _ (.ident i) => scopes.Assigns Δ i
  | .binary _ op left right => op ≠ .in ∧ op ≠ .instanceOf ∧ left.Bound Δ ∧ right.Bound Δ
  | .assign _ _ (.ident i) right => scopes.Assigns Δ i ∧ right.Bound Δ
  | .cond _ test yes no => test.Bound Δ ∧ yes.Bound Δ ∧ no.Bound Δ
  | .seq _ exprs => AreBound Δ exprs
  | _ => False

def AreBound (Δ : Layout) : List Expr → Prop
  | [] => True
  | e :: rest => e.Bound Δ ∧ AreBound Δ rest

end

/-- An expression, if there is one, is bound. -/
def Bound? (Δ : Layout) : Option Expr → Prop
  | none => True
  | some e => e.Bound scopes constants Δ

/-- Declarations with `var` are bound. -/
def DeclsBound (Δ : Layout) : List Declarator → Prop
  | [] => True
  | x :: rest =>
    (x.init.isSome = true → scopes.Assigns Δ x.name) ∧ Bound? scopes constants Δ x.init ∧
      DeclsBound Δ rest

def VarDecl.Bound (Δ : Layout) (d : VarDecl) : Prop :=
  d.kind = .var ∧ DeclsBound scopes constants Δ d.decls

def HeadBound? (Δ : Layout) : Option ForHead → Prop
  | none => True
  | some (.decl d) => d.Bound scopes constants Δ
  | some (.expr e) => e.Bound scopes constants Δ

mutual

/-- A statement is plain, its names mean the variables of a layout, and it opens no scopes of its
own but those of handlers. -/
def Stmt.Bound (fs : ScopeId) : Stmt → (Δ : Layout) → Prop
  | .block b, Δ => b.Bound fs Δ
  | .empty _, _ | .break _ _, _ | .continue _ _, _ => True
  | .expr _ e, Δ => e.Bound scopes constants Δ
  | .var d, Δ => d.Bound scopes constants Δ
  | .if _ test yes no, Δ => test.Bound scopes constants Δ ∧ yes.Bound fs Δ ∧ StmtBound? fs no Δ
  | .while _ test body, Δ => test.Bound scopes constants Δ ∧ body.Bound fs Δ
  | .doWhile _ body test, Δ => test.Bound scopes constants Δ ∧ body.Bound fs Δ
  | .for id init test update body, Δ =>
    scopes.OpensNone Δ id ∧ HeadBound? scopes constants Δ init ∧ Bound? scopes constants Δ test ∧
      Bound? scopes constants Δ update ∧ body.Bound fs Δ
  | .labeled _ _ body, Δ => body.Bound fs Δ
  | .return _ arg, Δ => EsOptimizer.Bound? scopes constants Δ arg
  | .throw _ arg, Δ => arg.Bound scopes constants Δ
  | .try _ block handler finalizer, Δ =>
    block.Bound fs Δ ∧ HandlerBound? fs handler Δ ∧ BlockBound? fs finalizer Δ
  | .function _ _ _, _ | .forIn _ _ _ _, _ | .with _ _ _, _ => False

def StmtBound? (fs : ScopeId) : Option Stmt → (Δ : Layout) → Prop
  | none, _ => True
  | some s, Δ => s.Bound fs Δ

def Block.Bound (fs : ScopeId) : Block → (Δ : Layout) → Prop
  | ⟨id, stmts⟩, Δ => scopes.OpensNone Δ id ∧ StmtsBound fs stmts Δ

def BlockBound? (fs : ScopeId) : Option Block → (Δ : Layout) → Prop
  | none, _ => True
  | some b, Δ => b.Bound fs Δ

/-- The parameter of a handler is in force in its body. -/
def HandlerBound? (fs : ScopeId) : Option CatchClause → (Δ : Layout) → Prop
  | none, _ => True
  | some ⟨id, none, body⟩, Δ => scopes.OpensNone Δ id ∧ body.Bound fs Δ
  | some ⟨id, some param, body⟩, Δ => scopes.OpensNone Δ id ∧
    ∃ v, scopes.writtenBy? (.name param) = some v ∧ v ∉ Δ.vars ∧ scopes.Owns fs v ∧
      body.Bound fs ((param.name, v) :: Δ)

def StmtsBound (fs : ScopeId) : List Stmt → (Δ : Layout) → Prop
  | [], _ => True
  | s :: rest, Δ => s.Bound fs Δ ∧ StmtsBound fs rest Δ

end

end

end EsOptimizer
