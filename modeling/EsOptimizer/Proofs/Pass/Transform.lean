import EsOptimizer.Proofs.Pass.Renumber
import EsOptimizer.Pass.Literal
import EsOptimizer.Syntax.Transform

/-!
# Transformed trees

A traversal draws on no more than the tree it goes through, if each hook draws on no more than what it
is given.
-/

namespace EsOptimizer

open EsOptimizer.Tree (stock)

attribute [local simp] Tree.stock Tree.ids Tree.nodes Node.tally Expr.ids Expr.nodes elemIds
  elemNodes exprIds exprNodes exprIds? exprNodes? PropertyKey.ids PropertyKey.nodes Property.ids
  Property.nodes propIds propNodes Func.ids Func.nodes Block.ids Block.nodes blockIds? blockNodes?
  Declarator.ids Declarator.nodes declIds declNodes VarDecl.ids VarDecl.nodes ForHead.ids
  ForHead.nodes headIds? headNodes? CatchClause.ids CatchClause.nodes handlerIds? handlerNodes?
  supplied_loopNodes Stmt.ids Stmt.nodes stmtIds? stmtNodes? stmtIds stmtNodes

/-! ## New nodes -/

/-- An expression, and what comes with it if it is a name. -/
def Expr.ownStock (τ : Supply) (e : Expr) : Tally := fun k =>
  stock .none e k + match e with
    | .ident i => τ i.name k
    | _ => 0

attribute [local simp] Expr.ownStock

/-- A new name. -/
theorem Reuses.named {α : Type} {m : α → Tally} {total : Tally} {name : String} {f : Ident → Edit α}
    (h : ∀ id, Reuses m (f ⟨id, name⟩) fun k => Tally.id id k + total k) :
    Reuses m (Make.ident name >>= f) total :=
  .fresh handsOut_newId h

namespace Make

theorem reuses_number (n : Number) : Reuses (stock .none) (number n) fun _ => 0 :=
  .fresh handsOut_newId fun id => .pure fun k => by simp

theorem reuses_unary (op : UnaryOp) (arg : Expr) :
    Reuses (stock .none) (unary op arg) (stock .none arg) :=
  .fresh handsOut_newId fun id => .pure fun k => by
    simp
    omega

theorem reuses_undefined : Reuses (stock .none) undefined fun _ => 0 :=
  (reuses_number .zero).andThen fun e => reuses_unary .void e

theorem reuses_assign (name : String) (value : Expr) :
    Reuses (stock .none) (assign name value) (stock .none value) :=
  .named fun id => .fresh handsOut_newId fun id' => .pure fun k => by
    simp
    omega

theorem reuses_seq (exprs : List Expr) : Reuses (stock .none) (seq exprs) (stock .none exprs) :=
  .fresh handsOut_newId fun id => .pure fun k => by
    simp
    omega

theorem reuses_expr (e : Expr) : Reuses (stock .none) (expr e) (stock .none e) :=
  .fresh handsOut_newId fun id => .pure fun k => by
    simp
    omega

theorem reuses_block (ss : List Stmt) : Reuses (stock .none) (block ss) (stock .none ss) :=
  .fresh handsOut_newId fun id => .pure fun k => by
    simp
    omega

theorem reuses_declarator (name : String) (init : Option Expr) :
    Reuses (stock .none) (declarator name init) (stock .none init) :=
  .fresh handsOut_newId fun id => .named fun id' => .pure fun k => by
    simp
    omega

theorem reuses_vars (names : List String) : Reuses (stock .none) (vars names) fun _ => 0 := by
  refine .fresh handsOut_newId fun id =>
    (Reuses.mapM (fun name => reuses_declarator name none) names).map₁ fun ds k => ?_
  rw [← Tree.stock_decls]
  simp
  omega

theorem reuses_declare (name : String) (value : Expr) :
    Reuses (stock .none) (declare name value) (stock .none value) :=
  .fresh handsOut_newId fun id => (reuses_declarator name (some value)).map₁ fun d k => by
    simp
    omega

theorem reuses_magnitude (n : Number) : Reuses (stock .none) (magnitude n) fun _ => 0 := by
  unfold magnitude
  split
  · exact .named fun id => .pure fun k => by simp
  · exact reuses_number n

theorem reuses_literal (p : Primitive) : Reuses (stock .none) (literal p) fun _ => 0 := by
  cases p with
  | undefined => exact reuses_undefined
  | number n =>
    rw [literal]
    split
    · exact .named fun id => .pure fun k => by simp
    · refine (reuses_magnitude n.abs).andThen fun size => ?_
      split
      · exact reuses_unary .minus size
      · exact .pure fun k => Nat.le_refl _
  | _ => exact .fresh handsOut_newId fun id => .pure fun k => by simp

theorem reuses_single (ss : List Stmt) :
    Reuses (stock .none) (single ss) (stock .none ss) := by
  match ss with
  | [] => exact .fresh handsOut_newId fun id => .pure fun k => by simp
  | [s] => exact .pure fun k => by simp
  | s :: s' :: rest => exact reuses_block _

end Make

@[simp] theorem Expr.ownStock_none (e : Expr) : e.ownStock .none = stock .none e := by
  funext k
  cases e <;> rfl

/-! ## The traversal -/

namespace Transform

/-- The hooks draw on what they are given only. -/
structure Conserves (t : Transform) (τ : Supply) : Prop where
  expr : ∀ role e, Reuses (stock .none) (t.expr role e) (e.ownStock τ)
  stmt : ∀ place before after, Reuses (stock .none) (t.stmt place before after) (stock .none after)
  list : ∀ isBody ss, Reuses (stock .none) (t.list isBody ss) (stock .none ss)
  func : ∀ f, Reuses (stock .none) (t.func f) (stock .none f)

namespace Conserves

variable {t : Transform} {τ : Supply}

theorem replaced (h : t.Conserves τ) (role : Role) (e : Expr) {parts : Edit Expr}
    (hparts : Reuses (Expr.ownStock τ) parts (stock τ e)) :
    Reuses (stock .none) (t.replaced role e parts) (stock τ e) := by
  unfold Transform.replaced
  split
  · exact hparts.andThen (h.expr role)
  · exact .pure fun k => Tree.stock_none_le τ e k

/-- A statement that stands alone. -/
theorem alone (h : t.Conserves τ) {s : Stmt} (hs : Reuses (stock .none) (t.onParts s) (stock τ s)) :
    Reuses (stock .none) (t.onParts s >>= t.alone s) (stock τ s) :=
  hs.andThen fun after => (h.stmt .alone s after).andThen Make.reuses_single

mutual

theorem onExpr (h : t.Conserves τ) (e : Expr) (role : Role) :
    Reuses (stock .none) (t.onExpr e role) (stock τ e) := by
  unfold Transform.onExpr
  refine h.replaced role e ?_
  cases e with
  | array id elems =>
    exact (h.onElems elems).map₁ fun a k => by
      simp
      omega
  | object id props =>
    exact (h.onProps props).map₁ fun a k => by
      simp
      omega
  | function id name fn =>
    exact (h.onFunc fn).map₁ fun a k => by
      simp
      omega
  | unary id op arg =>
    exact (h.onExpr arg _).map₁ fun a k => by
      simp
      omega
  | update id op before arg =>
    exact (h.onExpr arg _).map₁ fun a k => by
      simp
      omega
  | binary id op left right =>
    exact (h.onExpr left _).map₂ (h.onExpr right _) fun a b k => by
      simp
      omega
  | assign id op left right =>
    exact (h.onExpr left _).map₂ (h.onExpr right _) fun a b k => by
      simp
      omega
  | member id obj name =>
    exact (h.onExpr obj _).map₁ fun a k => by
      simp
      omega
  | index id obj key =>
    exact (h.onExpr obj _).map₂ (h.onExpr key _) fun a b k => by
      simp
      omega
  | cond id test yes no =>
    exact (h.onExpr test _).map₃ (h.onExpr yes _) (h.onExpr no _) fun a b c k => by
      simp
      omega
  | call id callee args =>
    exact (h.onExpr callee _).map₂ (h.onExprs args) fun a b k => by
      simp
      omega
  | new id callee args =>
    exact (h.onExpr callee _).map₂ (h.onExprs args) fun a b k => by
      simp
      omega
  | seq id exprs =>
    exact (h.onExprs exprs).map₁ fun a k => by
      simp
      omega
  | ident name => exact .pure fun k => by simp
  | _ => exact .pure fun k => by simp
termination_by structural e

theorem onElems (h : t.Conserves τ) (es : List (Option Expr)) :
    Reuses (stock .none) (t.onElems es) (stock τ es) := by
  match es with
  | [] => exact .pure fun k => by simp
  | none :: rest => exact (h.onElems rest).map₁ fun a k => by simp
  | some e :: rest =>
    exact (h.onExpr e _).map₂ (h.onElems rest) fun a b k => by
      simp
      omega
termination_by structural es

theorem onExprs (h : t.Conserves τ) (es : List Expr) :
    Reuses (stock .none) (t.onExprs es) (stock τ es) := by
  match es with
  | [] => exact .pure fun k => by simp
  | e :: rest =>
    exact (h.onExpr e _).map₂ (h.onExprs rest) fun a b k => by
      simp
      omega
termination_by structural es

theorem onExpr? (h : t.Conserves τ) (e : Option Expr) :
    Reuses (stock .none) (t.onExpr? e) (stock τ e) := by
  match e with
  | none => exact .pure fun k => by simp
  | some e => exact (h.onExpr e _).map₁ fun a k => by simp
termination_by structural e

theorem onKey (h : t.Conserves τ) (key : PropertyKey) :
    Reuses (stock .none) (t.onKey key) (stock τ key) := by
  match key with
  | .computed e => exact (h.onExpr e _).map₁ fun a k => by simp
  | .ident _ => exact .pure fun k => by simp
  | .string _ _ => exact .pure fun k => by simp
  | .number _ _ => exact .pure fun k => by simp
termination_by structural key

theorem onProperty (h : t.Conserves τ) (p : Property) :
    Reuses (stock .none) (t.onProperty p) (stock τ p) := by
  match p with
  | .value id key value =>
    exact (h.onKey key).map₂ (h.onExpr value _) fun a b k => by
      simp
      omega
  | .getter id key fn =>
    exact (h.onKey key).map₂ (h.onFunc fn) fun a b k => by
      simp
      omega
  | .setter id key fn =>
    exact (h.onKey key).map₂ (h.onFunc fn) fun a b k => by
      simp
      omega
termination_by structural p

theorem onProps (h : t.Conserves τ) (ps : List Property) :
    Reuses (stock .none) (t.onProps ps) (stock τ ps) := by
  match ps with
  | [] => exact .pure fun k => by simp
  | p :: rest =>
    exact (h.onProperty p).map₂ (h.onProps rest) fun a b k => by
      simp
      omega
termination_by structural ps

theorem onFunc (h : t.Conserves τ) (f : Func) :
    Reuses (stock .none) (t.onFunc f) (stock τ f) := by
  match f with
  | ⟨id, params, ⟨bodyId, stmts⟩⟩ =>
    unfold Transform.onFunc
    split
    · exact .pure fun k => Tree.stock_none_le τ _ k
    · refine ((h.onStmts stmts).andThen (h.list true)).bind
        (f := fun a => t.func ⟨id, params, ⟨bodyId, a⟩⟩) (fun a => h.func _) fun a k => ?_
      simp
      omega
termination_by structural f

theorem onBlock (h : t.Conserves τ) (b : Block) :
    Reuses (stock .none) (t.onBlock b) (stock τ b) := by
  match b with
  | ⟨id, stmts⟩ =>
    exact ((h.onStmts stmts).andThen (h.list false)).map₁ fun a k => by
      simp
      omega
termination_by structural b

theorem onBlock? (h : t.Conserves τ) (b : Option Block) :
    Reuses (stock .none) (t.onBlock? b) (stock τ b) := by
  match b with
  | none => exact .pure fun k => by simp
  | some b => exact (h.onBlock b).map₁ fun a k => by simp
termination_by structural b

theorem onDeclarators (h : t.Conserves τ) (ds : List Declarator) :
    Reuses (stock .none) (t.onDeclarators ds) (stock τ ds) := by
  match ds with
  | [] => exact .pure fun k => by simp
  | ⟨id, name, init⟩ :: rest =>
    exact (h.onExpr? init).map₂ (h.onDeclarators rest) fun a b k => by
      simp
      omega
termination_by structural ds

theorem onDecl (h : t.Conserves τ) (d : VarDecl) :
    Reuses (stock .none) (t.onDecl d) (stock τ d) := by
  match d with
  | ⟨id, kind, decls⟩ =>
    exact (h.onDeclarators decls).map₁ fun a k => by
      simp
      omega
termination_by structural d

theorem onHead (h : t.Conserves τ) (x : ForHead) (role : Role) :
    Reuses (stock .none) (t.onHead x role) (stock τ x) := by
  match x with
  | .decl d => exact (h.onDecl d).map₁ fun a k => by simp
  | .expr e => exact (h.onExpr e _).map₁ fun a k => by simp
termination_by structural x

theorem onHead? (h : t.Conserves τ) (x : Option ForHead) :
    Reuses (stock .none) (t.onHead? x) (stock τ x) := by
  match x with
  | none => exact .pure fun k => by simp
  | some x => exact (h.onHead x _).map₁ fun a k => by simp
termination_by structural x

theorem onHandler? (h : t.Conserves τ) (c : Option CatchClause) :
    Reuses (stock .none) (t.onHandler? c) (stock τ c) := by
  match c with
  | none => exact .pure fun k => by simp
  | some ⟨id, param, body⟩ =>
    exact (h.onBlock body).map₁ fun a k => by
      simp
      omega
termination_by structural c

theorem onParts (h : t.Conserves τ) (s : Stmt) :
    Reuses (stock .none) (t.onParts s) (stock τ s) := by
  cases s with
  | block b => exact (h.onBlock b).map₁ fun a k => by simp
  | expr id e =>
    exact (h.onExpr e _).map₁ fun a k => by
      simp
      omega
  | var d => exact (h.onDecl d).map₁ fun a k => by simp
  | function id name fn =>
    exact (h.onFunc fn).map₁ fun a k => by
      simp
      omega
  | «if» id test yes no =>
    exact (h.onExpr test _).map₃ (f := Stmt.if id) (h.alone (h.onParts yes)) (h.onAlone? no)
      fun a b c k => by
        simp
        omega
  | «for» id init test update body =>
    exact (h.onHead? init).map₄ (f := Stmt.for id) (h.onExpr? test) (h.onExpr? update)
      (h.alone (h.onParts body)) fun a b c d k => by
        simp
        omega
  | forIn id head obj body =>
    exact (h.onHead head _).map₃ (f := Stmt.forIn id) (h.onExpr obj _) (h.alone (h.onParts body))
      fun a b c k => by
        simp
        omega
  | «while» id test body =>
    exact (h.onExpr test _).map₂ (f := Stmt.while id) (h.alone (h.onParts body)) fun a b k => by
      simp
      omega
  | doWhile id body test =>
    exact (h.alone (h.onParts body)).map₂ (f := Stmt.doWhile id) (h.onExpr test _) fun a b k => by
      simp
      omega
  | «return» id arg =>
    exact (h.onExpr? arg).map₁ fun a k => by
      simp
      omega
  | labeled id label body =>
    exact (h.alone (h.onParts body)).map₁ (f := Stmt.labeled id label) fun a k => by
      simp
      omega
  | throw id arg =>
    exact (h.onExpr arg _).map₁ fun a k => by
      simp
      omega
  | «with» id obj body =>
    exact (h.onExpr obj _).map₂ (f := Stmt.with id) (h.alone (h.onParts body)) fun a b k => by
      simp
      omega
  | «try» id block handler finalizer =>
    exact (h.onBlock block).map₃ (h.onHandler? handler) (h.onBlock? finalizer) fun a b c k => by
      simp
      omega
  | _ => exact .pure fun k => by simp
termination_by structural s

theorem onAlone? (h : t.Conserves τ) (s : Option Stmt) :
    Reuses (stock .none) (t.onAlone? s) (stock τ s) := by
  match s with
  | none => exact .pure fun k => by simp
  | some s => exact (h.alone (h.onParts s)).map₁ (f := some) fun a k => by simp
termination_by structural s

theorem onStmts (h : t.Conserves τ) (ss : List Stmt) :
    Reuses (stock .none) (t.onStmts ss) (stock τ ss) := by
  match ss with
  | [] => exact .pure fun k => by simp
  | s :: rest =>
    exact ((h.onParts s).andThen fun after => h.stmt .listed s after).map₂ (h.onStmts rest)
      (f := (· ++ ·)) fun a b k => by
        rw [Tree.stock_append]
        simp
        omega
termination_by structural ss

end

end Conserves

end Transform

end EsOptimizer
