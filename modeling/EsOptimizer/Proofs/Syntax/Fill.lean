import EsOptimizer.Proofs.Syntax.Ids
import EsOptimizer.Proofs.Syntax.Shape

/-!
# Ids for a shape

A tree is its shape and its ids: `fill` gives the nodes of a shape ids from a list, in the order in
which nodes end.
-/

namespace EsOptimizer

/-- Computations that use up ids. -/
abbrev Supplied := StateM (List NodeId)

/-- The next id. -/
def supply : Supplied NodeId := fun ids => (ids.headD 0, ids.tail)

def Ident.fill (i : Ident) : Supplied Ident := return ⟨← supply, i.name⟩

def Ident.fill? : Option Ident → Supplied (Option Ident)
  | none => return none
  | some i => return some (← i.fill)

def Ident.fillAll : List Ident → Supplied (List Ident)
  | [] => return []
  | i :: rest => return (← i.fill) :: (← fillAll rest)

mutual

def Expr.fill : Expr → Supplied Expr
  | .this _ => return .this (← supply)
  | .array _ elems => do
    let elems ← fillElems elems
    return .array (← supply) elems
  | .object _ props => do
    let props ← fillProps props
    return .object (← supply) props
  | .function _ name fn => do
    let name ← Ident.fill? name
    let fn ← fn.fill
    return .function (← supply) name fn
  | .unary _ op arg => do
    let arg ← arg.fill
    return .unary (← supply) op arg
  | .update _ op before arg => do
    let arg ← arg.fill
    return .update (← supply) op before arg
  | .binary _ op left right => do
    let left ← left.fill
    let right ← right.fill
    return .binary (← supply) op left right
  | .assign _ op left right => do
    let left ← left.fill
    let right ← right.fill
    return .assign (← supply) op left right
  | .member _ obj name => do
    let obj ← obj.fill
    let name ← name.fill
    return .member (← supply) obj name
  | .index _ obj key => do
    let obj ← obj.fill
    let key ← key.fill
    return .index (← supply) obj key
  | .cond _ test yes no => do
    let test ← test.fill
    let yes ← yes.fill
    let no ← no.fill
    return .cond (← supply) test yes no
  | .call _ callee args => do
    let callee ← callee.fill
    let args ← fillExprs args
    return .call (← supply) callee args
  | .new _ callee args => do
    let callee ← callee.fill
    let args ← fillExprs args
    return .new (← supply) callee args
  | .seq _ exprs => do
    let exprs ← fillExprs exprs
    return .seq (← supply) exprs
  | .ident name => return .ident (← name.fill)
  | .string _ value => return .string (← supply) value
  | .bool _ value => return .bool (← supply) value
  | .null _ => return .null (← supply)
  | .number _ value => return .number (← supply) value
  | .regex _ body flags => return .regex (← supply) body flags
  | .invalid _ => return .invalid (← supply)

def fillElems : List (Option Expr) → Supplied (List (Option Expr))
  | [] => return []
  | none :: rest => return none :: (← fillElems rest)
  | some e :: rest => return some (← e.fill) :: (← fillElems rest)

def fillExprs : List Expr → Supplied (List Expr)
  | [] => return []
  | e :: rest => return (← e.fill) :: (← fillExprs rest)

def fillExpr? : Option Expr → Supplied (Option Expr)
  | none => return none
  | some e => return some (← e.fill)

def PropertyKey.fill : PropertyKey → Supplied PropertyKey
  | .ident name => return .ident (← name.fill)
  | .string _ value => return .string (← supply) value
  | .number _ value => return .number (← supply) value
  | .computed e => return .computed (← e.fill)

def Property.fill : Property → Supplied Property
  | .value _ key value => do
    let key ← key.fill
    let value ← value.fill
    return .value (← supply) key value
  | .getter _ key fn => do
    let key ← key.fill
    let fn ← fn.fill
    return .getter (← supply) key fn
  | .setter _ key fn => do
    let key ← key.fill
    let fn ← fn.fill
    return .setter (← supply) key fn

def fillProps : List Property → Supplied (List Property)
  | [] => return []
  | p :: rest => return (← p.fill) :: (← fillProps rest)

def Func.fill : Func → Supplied Func
  | ⟨_, params, body⟩ => do
    let params ← Ident.fillAll params
    let body ← body.fill
    return ⟨← supply, params, body⟩

def Block.fill : Block → Supplied Block
  | ⟨_, stmts⟩ => do
    let stmts ← fillStmts stmts
    return ⟨← supply, stmts⟩

def fillBlock? : Option Block → Supplied (Option Block)
  | none => return none
  | some b => return some (← b.fill)

def Declarator.fill : Declarator → Supplied Declarator
  | ⟨_, name, init⟩ => do
    let name ← name.fill
    let init ← fillExpr? init
    return ⟨← supply, name, init⟩

def fillDecls : List Declarator → Supplied (List Declarator)
  | [] => return []
  | d :: rest => return (← d.fill) :: (← fillDecls rest)

def VarDecl.fill : VarDecl → Supplied VarDecl
  | ⟨_, kind, decls⟩ => do
    let decls ← fillDecls decls
    return ⟨← supply, kind, decls⟩

def ForHead.fill : ForHead → Supplied ForHead
  | .decl d => return .decl (← d.fill)
  | .expr e => return .expr (← e.fill)

def fillHead? : Option ForHead → Supplied (Option ForHead)
  | none => return none
  | some h => return some (← h.fill)

def CatchClause.fill : CatchClause → Supplied CatchClause
  | ⟨_, param, body⟩ => do
    let param ← Ident.fill? param
    let body ← body.fill
    return ⟨← supply, param, body⟩

def fillHandler? : Option CatchClause → Supplied (Option CatchClause)
  | none => return none
  | some c => return some (← c.fill)

def Stmt.fill : Stmt → Supplied Stmt
  | .block b => return .block (← b.fill)
  | .empty _ => return .empty (← supply)
  | .expr _ e => do
    let e ← e.fill
    return .expr (← supply) e
  | .var d => return .var (← d.fill)
  | .function _ name fn => do
    let name ← name.fill
    let fn ← fn.fill
    return .function (← supply) name fn
  | .if _ test yes no => do
    let test ← test.fill
    let yes ← yes.fill
    let no ← fillStmt? no
    return .if (← supply) test yes no
  | .for _ init test update body => do
    let init ← fillHead? init
    let test ← fillExpr? test
    let update ← fillExpr? update
    let body ← body.fill
    return .for (← supply) init test update body
  | .forIn _ head obj body => do
    let head ← head.fill
    let obj ← obj.fill
    let body ← body.fill
    return .forIn (← supply) head obj body
  | .while _ test body => do
    let test ← test.fill
    let body ← body.fill
    return .while (← supply) test body
  | .doWhile _ body test => do
    let body ← body.fill
    let test ← test.fill
    return .doWhile (← supply) body test
  | .return _ arg => do
    let arg ← fillExpr? arg
    return .return (← supply) arg
  | .break _ label => do
    let label ← Ident.fill? label
    return .break (← supply) label
  | .continue _ label => do
    let label ← Ident.fill? label
    return .continue (← supply) label
  | .labeled _ label body => do
    let label ← label.fill
    let body ← body.fill
    return .labeled (← supply) label body
  | .throw _ arg => do
    let arg ← arg.fill
    return .throw (← supply) arg
  | .with _ obj body => do
    let obj ← obj.fill
    let body ← body.fill
    return .with (← supply) obj body
  | .try _ block handler finalizer => do
    let block ← block.fill
    let handler ← fillHandler? handler
    let finalizer ← fillBlock? finalizer
    return .try (← supply) block handler finalizer

def fillStmt? : Option Stmt → Supplied (Option Stmt)
  | none => return none
  | some s => return some (← s.fill)

def fillStmts : List Stmt → Supplied (List Stmt)
  | [] => return []
  | s :: rest => return (← s.fill) :: (← fillStmts rest)

end

/-! ## Filling in the ids of a tree -/

namespace Supplied

variable {α β : Type}

@[simp] theorem bind_apply (x : Supplied α) (f : α → Supplied β) (ids : List NodeId) :
    (x >>= f) ids = f (x ids).1 (x ids).2 := rfl

@[simp] theorem map_apply (f : α → β) (x : Supplied α) (ids : List NodeId) :
    (f <$> x) ids = (f (x ids).1, (x ids).2) := rfl

@[simp] theorem pure_apply (a : α) (ids : List NodeId) : (pure a : Supplied α) ids = (a, ids) := rfl

@[simp] theorem supply_cons (id : NodeId) (ids : List NodeId) : supply (id :: ids) = (id, ids) := rfl

end Supplied

@[simp] theorem Ident.fill_shape (i : Ident) (ids : List NodeId) :
    i.shape.fill (i.id :: ids) = (i, ids) := rfl

@[simp] theorem Ident.fill?_shape (i : Option Ident) (ids : List NodeId) :
    Ident.fill? (i.map Ident.shape) (Ident.ids? i ++ ids) = (i, ids) := by
  cases i <;> rfl

@[simp] theorem Ident.fillAll_shape (is : List Ident) (ids : List NodeId) :
    Ident.fillAll (is.map Ident.shape) (is.map (·.id) ++ ids) = (is, ids) := by
  induction is with
  | nil => rfl
  | cons i rest ih => simp [fillAll, ih]

attribute [local simp] Expr.ids elemIds exprIds exprIds? PropertyKey.ids Property.ids propIds
  Func.ids Block.ids blockIds? Declarator.ids declIds VarDecl.ids ForHead.ids headIds?
  CatchClause.ids handlerIds? Stmt.ids stmtIds? stmtIds Expr.fill fillElems fillExprs fillExpr?
  PropertyKey.fill Property.fill fillProps Func.fill Block.fill fillBlock? Declarator.fill
  fillDecls VarDecl.fill ForHead.fill fillHead? CatchClause.fill fillHandler? Stmt.fill fillStmt?
  fillStmts Stmt.braced

mutual

theorem Expr.fill_shape (e : Expr) (ids : List NodeId) :
    (e.shape false).fill (e.ids ++ ids) = (e, ids) := by
  cases e with
  | array _ elems => simp [fill_elemShapes elems]
  | object _ props => simp [fill_propShapes props]
  | function _ _ fn => simp [fn.fill_shape]
  | unary _ _ arg | update _ _ _ arg => simp [arg.fill_shape]
  | binary _ _ left right | assign _ _ left right => simp [left.fill_shape, right.fill_shape]
  | member _ obj _ => simp [obj.fill_shape]
  | index _ obj key => simp [obj.fill_shape, key.fill_shape]
  | cond _ test yes no => simp [test.fill_shape, yes.fill_shape, no.fill_shape]
  | call _ callee args | new _ callee args => simp [callee.fill_shape, fill_exprShapes args]
  | seq _ exprs => simp [fill_exprShapes exprs]
  | _ => simp
termination_by structural e

theorem fill_elemShapes (elems : List (Option Expr)) (ids : List NodeId) :
    fillElems (elemShapes false elems) (elemIds elems ++ ids) = (elems, ids) := by
  match elems with
  | [] => simp
  | none :: rest => simp [fill_elemShapes rest]
  | some e :: rest => simp [e.fill_shape, fill_elemShapes rest]
termination_by structural elems

theorem fill_exprShapes (exprs : List Expr) (ids : List NodeId) :
    fillExprs (exprShapes false exprs) (exprIds exprs ++ ids) = (exprs, ids) := by
  match exprs with
  | [] => simp
  | e :: rest => simp [e.fill_shape, fill_exprShapes rest]
termination_by structural exprs

theorem fill_exprShape? (e : Option Expr) (ids : List NodeId) :
    fillExpr? (exprShape? false e) (exprIds? e ++ ids) = (e, ids) := by
  match e with
  | none => simp
  | some e => simp [e.fill_shape]
termination_by structural e

theorem PropertyKey.fill_shape (key : PropertyKey) (ids : List NodeId) :
    (key.shape false).fill (key.ids ++ ids) = (key, ids) := by
  match key with
  | .ident _ | .string _ _ | .number _ _ => simp
  | .computed e => simp [e.fill_shape]
termination_by structural key

theorem Property.fill_shape (p : Property) (ids : List NodeId) :
    (p.shape false).fill (p.ids ++ ids) = (p, ids) := by
  match p with
  | .value _ key value => simp [key.fill_shape, value.fill_shape]
  | .getter _ key fn | .setter _ key fn => simp [key.fill_shape, fn.fill_shape]
termination_by structural p

theorem fill_propShapes (props : List Property) (ids : List NodeId) :
    fillProps (propShapes false props) (propIds props ++ ids) = (props, ids) := by
  match props with
  | [] => simp
  | p :: rest => simp [p.fill_shape, fill_propShapes rest]
termination_by structural props

theorem Func.fill_shape (fn : Func) (ids : List NodeId) :
    (fn.shape false).fill (fn.ids ++ ids) = (fn, ids) := by
  match fn with
  | ⟨_, _, body⟩ => simp [body.fill_shape]
termination_by structural fn

theorem Block.fill_shape (b : Block) (ids : List NodeId) :
    (b.shape false).fill (b.ids ++ ids) = (b, ids) := by
  match b with
  | ⟨_, stmts⟩ => simp [fill_stmtShapes stmts]
termination_by structural b

theorem fill_blockShape? (b : Option Block) (ids : List NodeId) :
    fillBlock? (blockShape? false b) (blockIds? b ++ ids) = (b, ids) := by
  match b with
  | none => simp
  | some b => simp [b.fill_shape]
termination_by structural b

theorem Declarator.fill_shape (d : Declarator) (ids : List NodeId) :
    (d.shape false).fill (d.ids ++ ids) = (d, ids) := by
  match d with
  | ⟨_, _, init⟩ => simp [fill_exprShape? init]
termination_by structural d

theorem fill_declShapes (ds : List Declarator) (ids : List NodeId) :
    fillDecls (declShapes false ds) (declIds ds ++ ids) = (ds, ids) := by
  match ds with
  | [] => simp
  | d :: rest => simp [d.fill_shape, fill_declShapes rest]
termination_by structural ds

theorem VarDecl.fill_shape (d : VarDecl) (ids : List NodeId) :
    (d.shape false).fill (d.ids ++ ids) = (d, ids) := by
  match d with
  | ⟨_, _, decls⟩ => simp [fill_declShapes decls]
termination_by structural d

theorem ForHead.fill_shape (h : ForHead) (ids : List NodeId) :
    (h.shape false).fill (h.ids ++ ids) = (h, ids) := by
  match h with
  | .decl d => simp [d.fill_shape]
  | .expr e => simp [e.fill_shape]
termination_by structural h

theorem fill_headShape? (h : Option ForHead) (ids : List NodeId) :
    fillHead? (headShape? false h) (headIds? h ++ ids) = (h, ids) := by
  match h with
  | none => simp
  | some h => simp [h.fill_shape]
termination_by structural h

theorem CatchClause.fill_shape (c : CatchClause) (ids : List NodeId) :
    (c.shape false).fill (c.ids ++ ids) = (c, ids) := by
  match c with
  | ⟨_, _, body⟩ => simp [body.fill_shape]
termination_by structural c

theorem fill_handlerShape? (c : Option CatchClause) (ids : List NodeId) :
    fillHandler? (handlerShape? false c) (handlerIds? c ++ ids) = (c, ids) := by
  match c with
  | none => simp
  | some c => simp [c.fill_shape]
termination_by structural c

theorem Stmt.fill_shape (s : Stmt) (ids : List NodeId) :
    (s.shape false).fill (s.ids ++ ids) = (s, ids) := by
  cases s with
  | block b => simp [b.fill_shape]
  | var d => simp [d.fill_shape]
  | expr _ e | throw _ e => simp [e.fill_shape]
  | function _ _ fn => simp [fn.fill_shape]
  | «if» _ test yes no => simp [test.fill_shape, yes.fill_shape, fill_stmtShape? no]
  | «for» _ init test update body =>
    simp [fill_headShape? init, fill_exprShape? test, fill_exprShape? update, body.fill_shape]
  | forIn _ head obj body => simp [head.fill_shape, obj.fill_shape, body.fill_shape]
  | «while» _ test body | doWhile _ body test => simp [test.fill_shape, body.fill_shape]
  | «return» _ arg => simp [fill_exprShape? arg]
  | labeled _ _ body => simp [body.fill_shape]
  | «with» _ obj body => simp [obj.fill_shape, body.fill_shape]
  | «try» _ block handler finalizer =>
    simp [block.fill_shape, fill_handlerShape? handler, fill_blockShape? finalizer]
  | _ => simp
termination_by structural s

theorem fill_stmtShape? (s : Option Stmt) (ids : List NodeId) :
    fillStmt? (stmtShape? false s) (stmtIds? s ++ ids) = (s, ids) := by
  match s with
  | none => simp
  | some s => simp [s.fill_shape]
termination_by structural s

theorem fill_stmtShapes (ss : List Stmt) (ids : List NodeId) :
    fillStmts (stmtShapes false ss) (stmtIds ss ++ ids) = (ss, ids) := by
  match ss with
  | [] => simp
  | s :: rest => simp [s.fill_shape, fill_stmtShapes rest]
termination_by structural ss

end

/-- A program is determined by its shape and its ids. -/
theorem Program.eq_of_shape {p q : Program} (hshape : p.shape false = q.shape false)
    {xs ys : List NodeId} (hids : p.ids ++ xs = q.ids ++ ys) : p = q := by
  obtain ⟨pid, pbody⟩ := p
  obtain ⟨qid, qbody⟩ := q
  have hbody : stmtShapes false pbody = stmtShapes false qbody := congrArg Program.body hshape
  simp only [Program.ids, List.append_assoc] at hids
  have hp := fill_stmtShapes pbody ([pid] ++ xs)
  rw [hbody, hids, fill_stmtShapes qbody] at hp
  obtain ⟨rfl, hrest⟩ := Prod.mk.inj hp
  rw [(List.cons.inj hrest).1]

end EsOptimizer
