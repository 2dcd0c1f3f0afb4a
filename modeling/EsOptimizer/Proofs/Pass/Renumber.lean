import EsOptimizer.Proofs.Pass.Reuse

/-!
# Copies

A copy has new ids throughout, and the names and holes of what it is a copy of.
-/

namespace EsOptimizer

attribute [local simp] Tree.stock Tree.ids Tree.nodes Node.tally Expr.ids Expr.nodes elemIds
  elemNodes exprIds exprNodes exprIds? exprNodes? PropertyKey.ids PropertyKey.nodes Property.ids
  Property.nodes propIds propNodes Func.ids Func.nodes Block.ids Block.nodes blockIds? blockNodes?
  Declarator.ids Declarator.nodes declIds declNodes VarDecl.ids VarDecl.nodes ForHead.ids
  ForHead.nodes headIds? headNodes? CatchClause.ids CatchClause.nodes handlerIds? handlerNodes?
  supplied_loopNodes Stmt.ids Stmt.nodes stmtIds? stmtNodes? stmtIds stmtNodes

/-- A copied name, which is a variable or not. -/
theorem Reuses.renamed {α : Type} {m : α → Tally} {total : Tally} {i : Ident} {f : Ident → Fresh α}
    (h : ∀ id, Reuses m (f ⟨id, i.name⟩) fun k => Tally.id id k + total k) :
    Reuses m (i.renumber >>= f) total :=
  .fresh handsOut_fresh h

theorem Ident.reuses_renumber? (τ : Supply) (name : Option Ident) :
    Reuses (Tree.stock τ) (Ident.renumber? name) (supplied τ (Node.name? name)) := by
  cases name with
  | none => exact .pure fun k => by simp [Ident.ids?]
  | some i => exact .renamed fun id => .pure fun k => by simp [Ident.ids?, Node.name?]

theorem Ident.reuses_renumberAll (τ : Supply) (is : List Ident) :
    Reuses (Tree.stock τ) (is.mapM Ident.renumber) (supplied τ (is.map .name)) := by
  induction is with
  | nil => exact .pure fun k => by simp
  | cons i is ih =>
    rw [List.mapM_cons]
    exact .renamed fun id => ih.map₁ fun a k => by simp; omega

mutual

theorem Expr.reuses_renumber (τ : Supply) (e : Expr) :
    Reuses (Tree.stock τ) e.renumber (supplied τ (e.nodes true)) := by
  cases e with
  | array _ elems =>
    exact .fresh handsOut_fresh fun id => (reuses_renumberElems τ elems).map₁ fun a k => by
      simp
      omega
  | object _ props =>
    exact .fresh handsOut_fresh fun id => (reuses_renumberProps τ props).map₁ fun a k => by
      simp
      omega
  | function _ name fn =>
    exact .fresh handsOut_fresh fun id =>
      (Ident.reuses_renumber? τ name).map₂ (Func.reuses_renumber τ fn) fun a b k => by
        simp
        omega
  | unary _ op arg =>
    exact .fresh handsOut_fresh fun id => (Expr.reuses_renumber τ arg).map₁ fun a k => by
      simp
      omega
  | update _ op before arg =>
    exact .fresh handsOut_fresh fun id => (Expr.reuses_renumber τ arg).map₁ fun a k => by
      simp
      omega
  | binary _ op left right =>
    exact .fresh handsOut_fresh fun id =>
      (Expr.reuses_renumber τ left).map₂ (Expr.reuses_renumber τ right) fun a b k => by
        simp
        omega
  | assign _ op left right =>
    exact .fresh handsOut_fresh fun id =>
      (Expr.reuses_renumber τ left).map₂ (Expr.reuses_renumber τ right) fun a b k => by
        simp
        omega
  | member _ obj name =>
    refine .fresh handsOut_fresh fun id => (Expr.reuses_renumber τ obj).bind
      (g := fun a k => Tree.stock τ a k + Tally.id id k) (fun a => .renamed fun id' => ?_) ?_
    · exact .pure fun k => by
        simp
        omega
    · intro a k
      simp
      omega
  | index _ obj key =>
    exact .fresh handsOut_fresh fun id =>
      (Expr.reuses_renumber τ obj).map₂ (Expr.reuses_renumber τ key) fun a b k => by
        simp
        omega
  | cond _ test yes no =>
    exact .fresh handsOut_fresh fun id => (Expr.reuses_renumber τ test).map₃
      (Expr.reuses_renumber τ yes) (Expr.reuses_renumber τ no) fun a b c k => by
        simp
        omega
  | call _ callee args =>
    exact .fresh handsOut_fresh fun id =>
      (Expr.reuses_renumber τ callee).map₂ (reuses_renumberExprs τ args) fun a b k => by
        simp
        omega
  | new _ callee args =>
    exact .fresh handsOut_fresh fun id =>
      (Expr.reuses_renumber τ callee).map₂ (reuses_renumberExprs τ args) fun a b k => by
        simp
        omega
  | seq _ exprs =>
    exact .fresh handsOut_fresh fun id => (reuses_renumberExprs τ exprs).map₁ fun a k => by
      simp
      omega
  | ident name => exact .renamed fun id => .pure fun k => by simp
  | _ => exact .fresh handsOut_fresh fun id => .pure fun k => by simp
termination_by structural e

theorem reuses_renumberElems (τ : Supply) (es : List (Option Expr)) :
    Reuses (Tree.stock τ) (renumberElems es) (supplied τ (elemNodes true es)) := by
  match es with
  | [] => exact .pure fun k => by simp
  | none :: rest =>
    exact (reuses_renumberElems τ rest).map₁ fun a k => by simp
  | some e :: rest =>
    exact (Expr.reuses_renumber τ e).map₂ (reuses_renumberElems τ rest) fun a b k => by
      simp
      omega
termination_by structural es

theorem reuses_renumberExprs (τ : Supply) (es : List Expr) :
    Reuses (Tree.stock τ) (renumberExprs es) (supplied τ (exprNodes true es)) := by
  match es with
  | [] => exact .pure fun k => by simp
  | e :: rest =>
    exact (Expr.reuses_renumber τ e).map₂ (reuses_renumberExprs τ rest) fun a b k => by
      simp
      omega
termination_by structural es

theorem reuses_renumberExpr? (τ : Supply) (e : Option Expr) :
    Reuses (Tree.stock τ) (renumberExpr? e) (supplied τ (exprNodes? true e)) := by
  match e with
  | none => exact .pure fun k => by simp
  | some e => exact (Expr.reuses_renumber τ e).map₁ fun a k => by simp
termination_by structural e

theorem PropertyKey.reuses_renumber (τ : Supply) (key : PropertyKey) :
    Reuses (Tree.stock τ) key.renumber (supplied τ (key.nodes true)) := by
  match key with
  | .ident name => exact .renamed fun id => .pure fun k => by simp
  | .string _ _ => exact .fresh handsOut_fresh fun id => .pure fun k => by simp
  | .number _ _ => exact .fresh handsOut_fresh fun id => .pure fun k => by simp
  | .computed e => exact (Expr.reuses_renumber τ e).map₁ fun a k => by simp
termination_by structural key

theorem Property.reuses_renumber (τ : Supply) (p : Property) :
    Reuses (Tree.stock τ) p.renumber (supplied τ (p.nodes true)) := by
  match p with
  | .value _ key value =>
    exact .fresh handsOut_fresh fun id =>
      (PropertyKey.reuses_renumber τ key).map₂ (Expr.reuses_renumber τ value) fun a b k => by
        simp
        omega
  | .getter _ key fn =>
    exact .fresh handsOut_fresh fun id =>
      (PropertyKey.reuses_renumber τ key).map₂ (Func.reuses_renumber τ fn) fun a b k => by
        simp
        omega
  | .setter _ key fn =>
    exact .fresh handsOut_fresh fun id =>
      (PropertyKey.reuses_renumber τ key).map₂ (Func.reuses_renumber τ fn) fun a b k => by
        simp
        omega
termination_by structural p

theorem reuses_renumberProps (τ : Supply) (ps : List Property) :
    Reuses (Tree.stock τ) (renumberProps ps) (supplied τ (propNodes true ps)) := by
  match ps with
  | [] => exact .pure fun k => by simp
  | p :: rest =>
    exact (Property.reuses_renumber τ p).map₂ (reuses_renumberProps τ rest) fun a b k => by
      simp
      omega
termination_by structural ps

theorem Func.reuses_renumber (τ : Supply) (f : Func) :
    Reuses (Tree.stock τ) f.renumber (supplied τ (f.nodes true)) := by
  match f with
  | ⟨_, params, body⟩ =>
    exact .fresh handsOut_fresh fun id =>
      (Ident.reuses_renumberAll τ params).map₂ (Block.reuses_renumber τ body) fun a b k => by
        simp
        omega
termination_by structural f

theorem Block.reuses_renumber (τ : Supply) (b : Block) :
    Reuses (Tree.stock τ) b.renumber (supplied τ (b.nodes true)) := by
  match b with
  | ⟨_, stmts⟩ =>
    exact .fresh handsOut_fresh fun id => (reuses_renumberStmts τ stmts).map₁ fun a k => by
      simp
      omega
termination_by structural b

theorem reuses_renumberBlock? (τ : Supply) (b : Option Block) :
    Reuses (Tree.stock τ) (renumberBlock? b) (supplied τ (blockNodes? true b)) := by
  match b with
  | none => exact .pure fun k => by simp
  | some b => exact (Block.reuses_renumber τ b).map₁ fun a k => by simp
termination_by structural b

theorem Declarator.reuses_renumber (τ : Supply) (d : Declarator) :
    Reuses (Tree.stock τ) d.renumber (supplied τ (d.nodes true)) := by
  match d with
  | ⟨_, name, init⟩ =>
    exact .fresh handsOut_fresh fun id => .renamed fun id' =>
      (reuses_renumberExpr? τ init).map₁ fun a k => by
        simp
        omega
termination_by structural d

theorem reuses_renumberDecls (τ : Supply) (ds : List Declarator) :
    Reuses (Tree.stock τ) (renumberDecls ds) (supplied τ (declNodes true ds)) := by
  match ds with
  | [] => exact .pure fun k => by simp
  | d :: rest =>
    exact (Declarator.reuses_renumber τ d).map₂ (reuses_renumberDecls τ rest) fun a b k => by
      simp
      omega
termination_by structural ds

theorem VarDecl.reuses_renumber (τ : Supply) (d : VarDecl) :
    Reuses (Tree.stock τ) d.renumber (supplied τ (d.nodes true)) := by
  match d with
  | ⟨_, kind, decls⟩ =>
    exact .fresh handsOut_fresh fun id => (reuses_renumberDecls τ decls).map₁ fun a k => by
      simp
      omega
termination_by structural d

theorem ForHead.reuses_renumber (τ : Supply) (h : ForHead) :
    Reuses (Tree.stock τ) h.renumber (supplied τ (h.nodes true)) := by
  match h with
  | .decl d => exact (VarDecl.reuses_renumber τ d).map₁ fun a k => by simp
  | .expr e => exact (Expr.reuses_renumber τ e).map₁ fun a k => by simp
termination_by structural h

theorem reuses_renumberHead? (τ : Supply) (h : Option ForHead) :
    Reuses (Tree.stock τ) (renumberHead? h) (supplied τ (headNodes? true h)) := by
  match h with
  | none => exact .pure fun k => by simp
  | some h => exact (ForHead.reuses_renumber τ h).map₁ fun a k => by simp
termination_by structural h

theorem CatchClause.reuses_renumber (τ : Supply) (c : CatchClause) :
    Reuses (Tree.stock τ) c.renumber (supplied τ (c.nodes true)) := by
  match c with
  | ⟨_, param, body⟩ =>
    exact .fresh handsOut_fresh fun id =>
      (Ident.reuses_renumber? τ param).map₂ (Block.reuses_renumber τ body) fun a b k => by
        simp
        omega
termination_by structural c

theorem reuses_renumberHandler? (τ : Supply) (c : Option CatchClause) :
    Reuses (Tree.stock τ) (renumberHandler? c) (supplied τ (handlerNodes? true c)) := by
  match c with
  | none => exact .pure fun k => by simp
  | some c => exact (CatchClause.reuses_renumber τ c).map₁ fun a k => by simp
termination_by structural c

theorem Stmt.reuses_renumber (τ : Supply) (s : Stmt) :
    Reuses (Tree.stock τ) s.renumber (supplied τ (s.nodes true)) := by
  cases s with
  | block b => exact (Block.reuses_renumber τ b).map₁ fun a k => by simp
  | empty _ => exact .fresh handsOut_fresh fun id => .pure fun k => by simp
  | expr _ e =>
    exact .fresh handsOut_fresh fun id => (Expr.reuses_renumber τ e).map₁ fun a k => by
      simp
      omega
  | var d => exact (VarDecl.reuses_renumber τ d).map₁ fun a k => by simp
  | function _ name fn =>
    exact .fresh handsOut_fresh fun id => .renamed fun id' =>
      (Func.reuses_renumber τ fn).map₁ fun a k => by
        simp
        omega
  | «if» _ test yes no =>
    exact .fresh handsOut_fresh fun id => (Expr.reuses_renumber τ test).map₃
      (Stmt.reuses_renumber τ yes) (reuses_renumberStmt? τ no) fun a b c k => by
        simp
        omega
  | «for» _ init test update body =>
    exact .fresh handsOut_fresh fun id => (reuses_renumberHead? τ init).map₄
      (reuses_renumberExpr? τ test) (reuses_renumberExpr? τ update) (Stmt.reuses_renumber τ body)
      fun a b c d k => by
        simp
        omega
  | forIn _ head obj body =>
    exact .fresh handsOut_fresh fun id => (ForHead.reuses_renumber τ head).map₃
      (Expr.reuses_renumber τ obj) (Stmt.reuses_renumber τ body) fun a b c k => by
        simp
        omega
  | «while» _ test body =>
    exact .fresh handsOut_fresh fun id =>
      (Expr.reuses_renumber τ test).map₂ (Stmt.reuses_renumber τ body) fun a b k => by
        simp
        omega
  | doWhile _ body test =>
    exact .fresh handsOut_fresh fun id =>
      (Stmt.reuses_renumber τ body).map₂ (Expr.reuses_renumber τ test) fun a b k => by
        simp
        omega
  | «return» _ arg =>
    exact .fresh handsOut_fresh fun id => (reuses_renumberExpr? τ arg).map₁ fun a k => by
      simp
      omega
  | «break» _ label =>
    exact .fresh handsOut_fresh fun id =>
      (Ident.reuses_renumber? Supply.none label).map₁ fun a k => by simp
  | «continue» _ label =>
    exact .fresh handsOut_fresh fun id =>
      (Ident.reuses_renumber? Supply.none label).map₁ fun a k => by simp
  | labeled _ label body =>
    exact .fresh handsOut_fresh fun id => .renamed fun id' =>
      (Stmt.reuses_renumber τ body).map₁ fun a k => by
        simp
        omega
  | throw _ arg =>
    exact .fresh handsOut_fresh fun id => (Expr.reuses_renumber τ arg).map₁ fun a k => by
      simp
      omega
  | «with» _ obj body =>
    exact .fresh handsOut_fresh fun id =>
      (Expr.reuses_renumber τ obj).map₂ (Stmt.reuses_renumber τ body) fun a b k => by
        simp
        omega
  | «try» _ block handler finalizer =>
    exact .fresh handsOut_fresh fun id => (Block.reuses_renumber τ block).map₃
      (reuses_renumberHandler? τ handler) (reuses_renumberBlock? τ finalizer) fun a b c k => by
        simp
        omega
termination_by structural s

theorem reuses_renumberStmt? (τ : Supply) (s : Option Stmt) :
    Reuses (Tree.stock τ) (renumberStmt? s) (supplied τ (stmtNodes? true s)) := by
  match s with
  | none => exact .pure fun k => by simp
  | some s => exact (Stmt.reuses_renumber τ s).map₁ fun a k => by simp
termination_by structural s

theorem reuses_renumberStmts (τ : Supply) (ss : List Stmt) :
    Reuses (Tree.stock τ) (renumberStmts ss) (supplied τ (stmtNodes true ss)) := by
  match ss with
  | [] => exact .pure fun k => by simp
  | s :: rest =>
    exact (Stmt.reuses_renumber τ s).map₂ (reuses_renumberStmts τ rest) fun a b k => by
      simp
      omega
termination_by structural ss

end

/-- A copy of a statement without holes draws on nothing. -/
theorem Stmt.reuses_copy {s : Stmt} (h : supplied .none (s.nodes true) none = 0) :
    Reuses (Tree.stock .none) (Edit.ofFresh s.renumber) fun _ => 0 :=
  (Stmt.reuses_renumber .none s).ofFresh.mono fun k => by
    cases k with
    | none => exact Nat.le_of_eq h
    | some i => exact Nat.le_of_eq (supplied_none_some _ i)

end EsOptimizer
