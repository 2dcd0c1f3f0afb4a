import EsOptimizer.Syntax.Walk
import Mathlib.Data.List.Nodup

/-!
# The ids of a tree

`ids` lists the ids of all nodes of a tree, names included, in the order in which nodes end: the
parts of a node in the order of their text, then the node. This is the order in which the parser
hands ids out. Facts are kept by id, so the theory of scopes and of the analysis assumes that no id
occurs twice.
-/

namespace EsOptimizer

/-- The id of a name that may be missing. -/
def Ident.ids? : Option Ident → List NodeId
  | none => []
  | some i => [i.id]

mutual

def Expr.ids : Expr → List NodeId
  | .this id | .string id _ | .bool id _ | .null id | .number id _ | .regex id _ _
  | .invalid id => [id]
  | .ident name => [name.id]
  | .array id elems => elemIds elems ++ [id]
  | .object id props => propIds props ++ [id]
  | .function id name fn => Ident.ids? name ++ fn.ids ++ [id]
  | .unary id _ arg => arg.ids ++ [id]
  | .update id _ _ arg => arg.ids ++ [id]
  | .binary id _ left right => left.ids ++ right.ids ++ [id]
  | .assign id _ left right => left.ids ++ right.ids ++ [id]
  | .member id obj name => obj.ids ++ [name.id, id]
  | .index id obj key => obj.ids ++ key.ids ++ [id]
  | .cond id test yes no => test.ids ++ yes.ids ++ no.ids ++ [id]
  | .call id callee args => callee.ids ++ exprIds args ++ [id]
  | .new id callee args => callee.ids ++ exprIds args ++ [id]
  | .seq id exprs => exprIds exprs ++ [id]

def elemIds : List (Option Expr) → List NodeId
  | [] => []
  | none :: rest => elemIds rest
  | some e :: rest => e.ids ++ elemIds rest

def exprIds : List Expr → List NodeId
  | [] => []
  | e :: rest => e.ids ++ exprIds rest

def exprIds? : Option Expr → List NodeId
  | none => []
  | some e => e.ids

def PropertyKey.ids : PropertyKey → List NodeId
  | .ident name => [name.id]
  | .string id _ | .number id _ => [id]
  | .computed e => e.ids

def Property.ids : Property → List NodeId
  | .value id key value => key.ids ++ value.ids ++ [id]
  | .getter id key fn => key.ids ++ fn.ids ++ [id]
  | .setter id key fn => key.ids ++ fn.ids ++ [id]

def propIds : List Property → List NodeId
  | [] => []
  | p :: rest => p.ids ++ propIds rest

def Func.ids : Func → List NodeId
  | ⟨id, params, body⟩ => params.map (·.id) ++ body.ids ++ [id]

def Block.ids : Block → List NodeId
  | ⟨id, stmts⟩ => stmtIds stmts ++ [id]

def blockIds? : Option Block → List NodeId
  | none => []
  | some b => b.ids

def Declarator.ids : Declarator → List NodeId
  | ⟨id, name, init⟩ => name.id :: exprIds? init ++ [id]

def declIds : List Declarator → List NodeId
  | [] => []
  | d :: rest => d.ids ++ declIds rest

def VarDecl.ids : VarDecl → List NodeId
  | ⟨id, _, decls⟩ => declIds decls ++ [id]

def ForHead.ids : ForHead → List NodeId
  | .decl d => d.ids
  | .expr e => e.ids

def headIds? : Option ForHead → List NodeId
  | none => []
  | some h => h.ids

def CatchClause.ids : CatchClause → List NodeId
  | ⟨id, param, body⟩ => Ident.ids? param ++ body.ids ++ [id]

def handlerIds? : Option CatchClause → List NodeId
  | none => []
  | some c => c.ids

def Stmt.ids : Stmt → List NodeId
  | .block b => b.ids
  | .empty id => [id]
  | .expr id e => e.ids ++ [id]
  | .var d => d.ids
  | .function id name fn => name.id :: fn.ids ++ [id]
  | .if id test yes no => test.ids ++ yes.ids ++ stmtIds? no ++ [id]
  | .for id init test update body =>
    headIds? init ++ exprIds? test ++ exprIds? update ++ body.ids ++ [id]
  | .forIn id head obj body => head.ids ++ obj.ids ++ body.ids ++ [id]
  | .while id test body => test.ids ++ body.ids ++ [id]
  | .doWhile id body test => body.ids ++ test.ids ++ [id]
  | .return id arg => exprIds? arg ++ [id]
  | .break id label | .continue id label => Ident.ids? label ++ [id]
  | .labeled id label body => label.id :: body.ids ++ [id]
  | .throw id arg => arg.ids ++ [id]
  | .with id obj body => obj.ids ++ body.ids ++ [id]
  | .try id block handler finalizer =>
    block.ids ++ handlerIds? handler ++ blockIds? finalizer ++ [id]

def stmtIds? : Option Stmt → List NodeId
  | none => []
  | some s => s.ids

def stmtIds : List Stmt → List NodeId
  | [] => []
  | s :: rest => s.ids ++ stmtIds rest

end

def Program.ids (p : Program) : List NodeId := stmtIds p.body ++ [p.id]

/-! ## Ids of parts -/

def Node.ids : Node → List NodeId
  | .stmt s => s.ids
  | .expr e => e.ids
  | .decl d | .loopDecl d => d.ids
  | .func f => f.ids
  | .name i => [i.id]

/-- The name that a node is. -/
def Node.variable? : Node → Option Ident
  | .name i => some i
  | _ => none

/-- The ids of all nodes of a list are among `ids`. -/
def NodesWithin (ns : List Node) (ids : List NodeId) : Prop := ∀ n ∈ ns, n.ids ⊆ ids

section

variable {ns ms : List Node} {n : Node} {ids ids' : List NodeId}

theorem NodesWithin.nil : NodesWithin [] ids := nofun

theorem NodesWithin.mono (h : NodesWithin ns ids) (hids : ids ⊆ ids') : NodesWithin ns ids' :=
  fun n hn => List.Subset.trans (h n hn) hids

theorem nodesWithin_cons : NodesWithin (n :: ns) ids ↔ n.ids ⊆ ids ∧ NodesWithin ns ids :=
  List.forall_mem_cons

theorem nodesWithin_append :
    NodesWithin (ns ++ ms) ids ↔ NodesWithin ns ids ∧ NodesWithin ms ids :=
  List.forall_mem_append

end

/-! ## Regular trees -/

/-- No id occurs twice, and no declaration in front of an `in` gives a value: what the parser
promises. The walk over scopes does not follow such values; `skips` tells that there may be some. -/
structure Regular (skips : Prop) (ids : List NodeId) (ns : List Node) : Prop where
  nodup : ids.Nodup
  bare : ¬skips → ∀ d, .loopDecl d ∈ ns → ∀ x ∈ d.decls, x.init = none

def Program.Regular (p : Program) : Prop := EsOptimizer.Regular False p.ids p.nodes

namespace Regular

variable {skips : Prop} {ids ids' : List NodeId} {ns ms : List Node} {n : Node}

/-- No id occurs twice. -/
theorem ofNodup (h : ids.Nodup) : Regular True ids ns := ⟨h, fun hskips => absurd trivial hskips⟩

theorem left (h : Regular skips (ids ++ ids') (ns ++ ms)) : Regular skips ids ns :=
  ⟨(List.nodup_append'.mp h.nodup).1, fun hs d hd => h.bare hs d (List.mem_append_left _ hd)⟩

theorem right (h : Regular skips (ids ++ ids') (ns ++ ms)) : Regular skips ids' ms :=
  ⟨(List.nodup_append'.mp h.nodup).2.1, fun hs d hd => h.bare hs d (List.mem_append_right _ hd)⟩

theorem disjoint (h : Regular skips (ids ++ ids') ns) : List.Disjoint ids ids' :=
  (List.nodup_append'.mp h.nodup).2.2

/-- The parts of a node that is not listed. -/
theorem unlisted (h : Regular skips (ids ++ ids') ns) : Regular skips ids ns :=
  ⟨(List.nodup_append'.mp h.nodup).1, h.bare⟩

/-- The parts of a node. -/
theorem parts {id : NodeId} (h : Regular skips (ids ++ [id]) (n :: ns)) : Regular skips ids ns :=
  ⟨(List.nodup_append'.mp h.nodup).1, fun hs d hd => h.bare hs d (List.mem_cons_of_mem _ hd)⟩

theorem tail (h : Regular skips ids (n :: ns)) : Regular skips ids ns :=
  ⟨h.nodup, fun hs d hd => h.bare hs d (List.mem_cons_of_mem _ hd)⟩

end Regular

end EsOptimizer
