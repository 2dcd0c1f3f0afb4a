import EsOptimizer.Proofs.Syntax.Ids
import EsOptimizer.Scope.Build

/-!
# Where names stand

`Program.occurrences` lists the names in a program that stand for variables, in the order of
`Program.nodes`: what each does to its variable, and the innermost nodes around it that open a scope
and a function. Everything is read off the program, and nothing of this knows how names are resolved.

A function has one scope for its parameters, its body and, if it is an expression, its own name. A
declared function has its name outside. A loop has a scope if its head declares with `let` or
`const`, and then the whole head stands in it.
-/

namespace EsOptimizer

/-- What a name does to its variable. -/
inductive NameRole where
  /-- Nothing: it is declared without a value, or stands where no code is run. -/
  | silent
  | use (kind : SiteKind)
  /-- The own name of a function expression, which parameters and declarations may hide. -/
  | ownName
deriving DecidableEq

/-- What is noted of a name if anything is. -/
def NameRole.kind? : NameRole → Option SiteKind
  | silent => none
  | use kind => some kind
  | ownName => some .init

/-- A name that stands for a variable. -/
structure Occurrence where
  ident : Ident
  role : NameRole
  /-- The innermost node around it that opens a scope. -/
  scope : NodeId
  /-- The innermost function around it, or the program. -/
  function : NodeId

namespace Occurrence

/-- The same name where no code is run. -/
def silenced (o : Occurrence) : Occurrence := { o with role := .silent }

/-- An occurrence in code with these ids, which stands in the scope `s` and the function `f`. -/
structure Within (o : Occurrence) (ids : List NodeId) (s f : NodeId) : Prop where
  ident : o.ident.id ∈ ids
  scope : o.scope = s ∨ o.scope ∈ ids
  function : o.function = f ∨ o.function ∈ ids

theorem Within.mono {o : Occurrence} {ids ids' : List NodeId} {s f : NodeId} (h : o.Within ids s f)
    (hids : ids ⊆ ids') : o.Within ids' s f :=
  ⟨hids h.ident, h.scope.imp_right (hids ·), h.function.imp_right (hids ·)⟩

/-- Seen from around a node that opens a scope. -/
theorem Within.outer {o : Occurrence} {ids ids' : List NodeId} {s f node : NodeId}
    (h : o.Within ids node f) (hids : ids ⊆ ids') (hnode : node ∈ ids') : o.Within ids' s f := by
  refine ⟨hids h.ident, Or.inr ?_, h.function.imp_right (hids ·)⟩
  rcases h.scope with rfl | hscope
  · exact hnode
  · exact hids hscope

/-- Seen from around a function. -/
theorem Within.outside {o : Occurrence} {ids ids' : List NodeId} {s f id : NodeId}
    (h : o.Within ids id id) (hids : ids ⊆ ids') (hid : id ∈ ids') : o.Within ids' s f := by
  refine ⟨hids h.ident, (h.outer hids hid).scope, Or.inr ?_⟩
  rcases h.function with rfl | hfunction
  · exact hid
  · exact hids hfunction

end Occurrence

/-- The own name of the function `id`. -/
def Resolve.FunctionName.occurrences (id : NodeId) : FunctionName → List Occurrence
  | .own i => [⟨i, .ownName, id, id⟩]
  | _ => []

/-- The node whose scope the head of a loop stands in: the loop, if the head declares names whose
reach is the loop. -/
def ForHead.scope (id s : NodeId) : Option ForHead → NodeId
  | some (.decl d) => if d.kind = .var then s else id
  | _ => s

mutual

/-- The names in an expression that stands in the scope `s` and the function `f`. -/
def Expr.occurrences : Expr → (s f : NodeId) → List Occurrence
  | .array _ elems, s, f => elemOccurrences elems s f
  | .object _ props, s, f => propOccurrences props s f
  | .function _ name fn, _, _ =>
    Resolve.FunctionName.occurrences fn.id (name.elim .none .own) ++ fn.occurrences
  | .unary _ _ arg, s, f => arg.occurrences s f
  | .update _ _ _ (.ident i), s, f => [⟨i, .use .compound, s, f⟩]
  | .update _ _ _ arg, s, f => arg.occurrences s f
  | .binary _ _ left right, s, f => left.occurrences s f ++ right.occurrences s f
  | .assign _ op (.ident i) right, s, f =>
    ⟨i, .use (if op = .assign then .assign else .compound), s, f⟩ :: right.occurrences s f
  | .assign _ .assign (.member _ (.ident o) _) right, s, f =>
    ⟨o, .use .propertyWrite, s, f⟩ :: right.occurrences s f
  | .assign _ .assign (.index _ (.ident o) key) right, s, f =>
    ⟨o, .use .propertyWrite, s, f⟩ :: key.occurrences s f ++ right.occurrences s f
  | .assign _ _ left right, s, f => left.occurrences s f ++ right.occurrences s f
  | .member _ obj _, s, f => obj.occurrences s f
  | .index _ obj key, s, f => obj.occurrences s f ++ key.occurrences s f
  | .cond _ test yes no, s, f => test.occurrences s f ++ yes.occurrences s f ++ no.occurrences s f
  | .call _ (.ident i) args, s, f => ⟨i, .use .callee, s, f⟩ :: exprOccurrences args s f
  | .call _ callee args, s, f => callee.occurrences s f ++ exprOccurrences args s f
  | .new _ callee args, s, f => callee.occurrences s f ++ exprOccurrences args s f
  | .seq _ exprs, s, f => exprOccurrences exprs s f
  | .ident i, s, f => [⟨i, .use .read, s, f⟩]
  | .this _, _, _ | .string _ _, _, _ | .bool _ _, _, _ | .null _, _, _ | .number _ _, _, _
  | .regex _ _ _, _, _ | .invalid _, _, _ => []

def elemOccurrences : List (Option Expr) → (s f : NodeId) → List Occurrence
  | [], _, _ => []
  | none :: rest, s, f => elemOccurrences rest s f
  | some e :: rest, s, f => e.occurrences s f ++ elemOccurrences rest s f

def exprOccurrences : List Expr → (s f : NodeId) → List Occurrence
  | [], _, _ => []
  | e :: rest, s, f => e.occurrences s f ++ exprOccurrences rest s f

def exprOccurrences? : Option Expr → (s f : NodeId) → List Occurrence
  | none, _, _ => []
  | some e, s, f => e.occurrences s f

def PropertyKey.occurrences : PropertyKey → (s f : NodeId) → List Occurrence
  | .computed e, s, f => e.occurrences s f
  | _, _, _ => []

def Property.occurrences : Property → (s f : NodeId) → List Occurrence
  | .value _ key value, s, f => key.occurrences s f ++ value.occurrences s f
  | .getter _ key fn, s, f => key.occurrences s f ++ fn.occurrences
  | .setter _ key fn, s, f => key.occurrences s f ++ fn.occurrences

def propOccurrences : List Property → (s f : NodeId) → List Occurrence
  | [], _, _ => []
  | p :: rest, s, f => p.occurrences s f ++ propOccurrences rest s f

/-- The names in a function, its own aside. -/
def Func.occurrences : Func → List Occurrence
  | ⟨id, params, ⟨_, stmts⟩⟩ =>
    params.map (⟨·, .use .init, id, id⟩) ++ stmtOccurrences stmts id id

def Block.occurrences : Block → (f : NodeId) → List Occurrence
  | ⟨id, stmts⟩, f => stmtOccurrences stmts id f

def blockOccurrences? : Option Block → (f : NodeId) → List Occurrence
  | none, _ => []
  | some b, f => b.occurrences f

/-- A name that is declared without a value is silent. -/
def declOccurrences : List Declarator → (s f : NodeId) → List Occurrence
  | [], _, _ => []
  | ⟨_, name, none⟩ :: rest, s, f => ⟨name, .silent, s, f⟩ :: declOccurrences rest s f
  | ⟨_, name, some e⟩ :: rest, s, f =>
    ⟨name, .use .init, s, f⟩ :: e.occurrences s f ++ declOccurrences rest s f

def headOccurrences? : Option ForHead → (s f : NodeId) → List Occurrence
  | none, _, _ => []
  | some (.decl ⟨_, _, decls⟩), s, f => declOccurrences decls s f
  | some (.expr e), s, f => e.occurrences s f

/-- A value in front of the `in` of a loop is not run. -/
def loopNameOccurrences : List Declarator → (s f : NodeId) → List Occurrence
  | [], _, _ => []
  | ⟨_, name, init⟩ :: rest, s, f =>
    ⟨name, .use .forIn, s, f⟩ :: (exprOccurrences? init s f).map Occurrence.silenced ++
      loopNameOccurrences rest s f

def loopHeadOccurrences : ForHead → (s f : NodeId) → List Occurrence
  | .decl ⟨_, _, decls⟩, s, f => loopNameOccurrences decls s f
  | .expr (.ident i), s, f => [⟨i, .use .forIn, s, f⟩]
  | .expr e, s, f => e.occurrences s f

def handlerOccurrences? : Option CatchClause → (f : NodeId) → List Occurrence
  | none, _ => []
  | some ⟨id, some p, body⟩, f => ⟨p, .use .init, id, f⟩ :: body.occurrences f
  | some ⟨_, none, body⟩, f => body.occurrences f

def Stmt.occurrences : Stmt → (s f : NodeId) → List Occurrence
  | .block b, _, f => b.occurrences f
  | .expr _ e, s, f => e.occurrences s f
  | .var ⟨_, _, decls⟩, s, f => declOccurrences decls s f
  | .function _ name fn, s, f => ⟨name, .use .init, s, f⟩ :: fn.occurrences
  | .if _ test yes no, s, f =>
    test.occurrences s f ++ yes.occurrences s f ++ stmtOccurrences? no s f
  | .for id init test update body, s, f =>
    headOccurrences? init (ForHead.scope id s init) f ++
      exprOccurrences? test (ForHead.scope id s init) f ++
      exprOccurrences? update (ForHead.scope id s init) f ++
      body.occurrences (ForHead.scope id s init) f
  | .forIn id head obj body, s, f =>
    loopHeadOccurrences head (ForHead.scope id s (some head)) f ++
      obj.occurrences (ForHead.scope id s (some head)) f ++
      body.occurrences (ForHead.scope id s (some head)) f
  | .while _ test body, s, f => test.occurrences s f ++ body.occurrences s f
  | .doWhile _ body test, s, f => body.occurrences s f ++ test.occurrences s f
  | .return _ arg, s, f => exprOccurrences? arg s f
  | .labeled _ _ body, s, f => body.occurrences s f
  | .throw _ arg, s, f => arg.occurrences s f
  | .with _ obj body, s, f => obj.occurrences s f ++ body.occurrences s f
  | .try _ block handler finalizer, _, f =>
    block.occurrences f ++ handlerOccurrences? handler f ++ blockOccurrences? finalizer f
  | .empty _, _, _ | .break _ _, _, _ | .continue _ _, _, _ => []

def stmtOccurrences? : Option Stmt → (s f : NodeId) → List Occurrence
  | none, _, _ => []
  | some st, s, f => st.occurrences s f

def stmtOccurrences : List Stmt → (s f : NodeId) → List Occurrence
  | [], _, _ => []
  | st :: rest, s, f => st.occurrences s f ++ stmtOccurrences rest s f

end

/-- What is assigned to has names that do other things than elsewhere. -/
def Expr.targetOccurrences (op : AssignOp) : Expr → (s f : NodeId) → List Occurrence
  | .ident i, s, f => [⟨i, .use (if op = .assign then .assign else .compound), s, f⟩]
  | .member _ (.ident o) _, s, f =>
    [⟨o, .use (if op = .assign then .propertyWrite else .read), s, f⟩]
  | .index _ (.ident o) key, s, f =>
    ⟨o, .use (if op = .assign then .propertyWrite else .read), s, f⟩ :: key.occurrences s f
  | target, s, f => target.occurrences s f

/-- What is called may be a name. -/
def Expr.calleeOccurrences : Expr → (s f : NodeId) → List Occurrence
  | .ident i, s, f => [⟨i, .use .callee, s, f⟩]
  | callee, s, f => callee.occurrences s f

theorem Expr.occurrences_assign (id : NodeId) (op : AssignOp) (left right : Expr) (s f : NodeId) :
    (Expr.assign id op left right).occurrences s f =
      left.targetOccurrences op s f ++ right.occurrences s f := by
  rw [Expr.occurrences.eq_def (.assign id op left right)]
  cases left with
  | member _ obj _ => cases obj <;> cases op <;> rfl
  | index _ obj _ => cases obj <;> cases op <;> rfl
  | _ => rfl

theorem Expr.occurrences_call (id : NodeId) (callee : Expr) (args : List Expr) (s f : NodeId) :
    (Expr.call id callee args).occurrences s f =
      callee.calleeOccurrences s f ++ exprOccurrences args s f := by
  cases callee <;> rfl

/-- All names in a program that stand for variables. -/
def Program.occurrences (p : Program) : List Occurrence := stmtOccurrences p.body p.id p.id

/-! ## No name is left out -/

/-- The names among some nodes, in order, are those of the occurrences. -/
def Shows (ns : List Node) (os : List Occurrence) : Prop :=
  os.map (·.ident) = ns.filterMap Node.variable?

namespace Shows

variable {ns ms : List Node} {os us : List Occurrence}

theorem nil : Shows [] [] := rfl

theorem append (h : Shows ns os) (h' : Shows ms us) : Shows (ns ++ ms) (os ++ us) := by
  rw [Shows, List.map_append, List.filterMap_append, h, h']

/-- A node that is no name. -/
theorem node {n : Node} (h : Shows ns os) (hn : n.variable? = none) : Shows (n :: ns) os := by
  rw [Shows, List.filterMap_cons_none hn]
  exact h

theorem name (o : Occurrence) (h : Shows ns os) : Shows (.name o.ident :: ns) (o :: os) := by
  have hname : Node.variable? (.name o.ident) = some _ := rfl
  rw [Shows, List.map_cons, List.filterMap_cons_some hname, h]

/-- A name that is an expression. -/
theorem ident (o : Occurrence) (h : Shows ns os) :
    Shows (Expr.nodes true (.ident o.ident) ++ ns) (o :: os) :=
  (h.name o).node rfl

theorem silenced (h : Shows ns os) : Shows ns (os.map Occurrence.silenced) := by
  rw [Shows, List.map_map]
  exact h

theorem names (params : List Ident) (role : NameRole) (s f : NodeId) :
    Shows (params.map .name) (params.map (⟨·, role, s, f⟩)) := by
  induction params with
  | nil => exact .nil
  | cons p rest ih => exact ih.name ⟨p, role, s, f⟩

end Shows

mutual

theorem Expr.shows (e : Expr) (s f : NodeId) : Shows (e.nodes true) (e.occurrences s f) := by
  cases e with
  | array id elems => exact (elems_show elems s f).node rfl
  | object id props => exact (props_show props s f).node rfl
  | function id name fn =>
    cases name with
    | none => exact (fn.shows).node rfl
    | some i => exact (fn.shows.name ⟨i, .ownName, fn.id, fn.id⟩).node rfl
  | unary id op arg => exact (arg.shows s f).node rfl
  | update id op before arg =>
    have harg := arg.shows s f
    cases arg with
    | ident i => exact (Shows.nil.ident ⟨i, .use .compound, s, f⟩).node rfl
    | _ => exact harg.node rfl
  | binary id op left right => exact ((left.shows s f).append (right.shows s f)).node rfl
  | assign id op left right =>
    have hright := right.shows s f
    rw [Expr.occurrences_assign]
    refine (Shows.append ?_ hright).node rfl
    have hleft := left.shows s f
    cases left with
    | ident i => exact Shows.nil.ident ⟨i, _, s, f⟩
    | member _ obj _ =>
      cases obj with
      | ident o => exact (Shows.nil.ident ⟨o, _, s, f⟩).node rfl
      | _ => exact hleft
    | index _ obj key =>
      have hkey := key.shows s f
      cases obj with
      | ident o => exact (hkey.ident ⟨o, _, s, f⟩).node rfl
      | _ => exact hleft
    | _ => exact hleft
  | member id obj name => exact (obj.shows s f).node rfl
  | index id obj key => exact ((obj.shows s f).append (key.shows s f)).node rfl
  | cond id test yes no =>
    exact (((test.shows s f).append (yes.shows s f)).append (no.shows s f)).node rfl
  | call id callee args =>
    have hcallee := callee.shows s f
    have hargs := exprs_show args s f
    cases callee with
    | ident i => exact (hargs.ident ⟨i, .use .callee, s, f⟩).node rfl
    | _ => exact (hcallee.append hargs).node rfl
  | new id callee args => exact ((callee.shows s f).append (exprs_show args s f)).node rfl
  | seq id exprs => exact (exprs_show exprs s f).node rfl
  | ident i => exact Shows.nil.ident ⟨i, .use .read, s, f⟩
  | _ => exact Shows.nil.node rfl
termination_by structural e

theorem elems_show (es : List (Option Expr)) (s f : NodeId) :
    Shows (elemNodes true es) (elemOccurrences es s f) := by
  match es with
  | [] => exact .nil
  | none :: rest => exact elems_show rest s f
  | some e :: rest => exact (e.shows s f).append (elems_show rest s f)
termination_by structural es

theorem exprs_show (es : List Expr) (s f : NodeId) :
    Shows (exprNodes true es) (exprOccurrences es s f) := by
  match es with
  | [] => exact .nil
  | e :: rest => exact (e.shows s f).append (exprs_show rest s f)
termination_by structural es

theorem expr?_shows (e : Option Expr) (s f : NodeId) :
    Shows (exprNodes? true e) (exprOccurrences? e s f) := by
  match e with
  | none => exact .nil
  | some e => exact e.shows s f
termination_by structural e

theorem PropertyKey.shows (key : PropertyKey) (s f : NodeId) :
    Shows (key.nodes true) (key.occurrences s f) := by
  match key with
  | .ident _ | .string _ _ | .number _ _ => exact .nil
  | .computed e => exact e.shows s f
termination_by structural key

theorem Property.shows (p : Property) (s f : NodeId) : Shows (p.nodes true) (p.occurrences s f) := by
  match p with
  | .value _ key value => exact (key.shows s f).append (value.shows s f)
  | .getter _ key fn => exact (key.shows s f).append fn.shows
  | .setter _ key fn => exact (key.shows s f).append fn.shows
termination_by structural p

theorem props_show (ps : List Property) (s f : NodeId) :
    Shows (propNodes true ps) (propOccurrences ps s f) := by
  match ps with
  | [] => exact .nil
  | p :: rest => exact (p.shows s f).append (props_show rest s f)
termination_by structural ps

theorem Func.shows (fn : Func) : Shows (fn.nodes true) fn.occurrences := by
  match fn with
  | ⟨id, params, ⟨_, stmts⟩⟩ =>
    exact ((Shows.names params (.use .init) id id).append (stmts_show stmts id id)).node rfl
termination_by structural fn

theorem Block.shows (b : Block) (f : NodeId) : Shows (b.nodes true) (b.occurrences f) := by
  match b with
  | ⟨id, stmts⟩ => exact stmts_show stmts id f
termination_by structural b

theorem block?_shows (b : Option Block) (f : NodeId) :
    Shows (blockNodes? true b) (blockOccurrences? b f) := by
  match b with
  | none => exact .nil
  | some b => exact b.shows f
termination_by structural b

theorem decls_show (ds : List Declarator) (s f : NodeId) :
    Shows (declNodes true ds) (declOccurrences ds s f) := by
  match ds with
  | [] => exact .nil
  | ⟨_, name, none⟩ :: rest => exact (decls_show rest s f).name ⟨name, .silent, s, f⟩
  | ⟨_, name, some e⟩ :: rest =>
    exact ((e.shows s f).append (decls_show rest s f)).name ⟨name, .use .init, s, f⟩
termination_by structural ds

theorem head?_shows (h : Option ForHead) (s f : NodeId) :
    Shows (headNodes? true h) (headOccurrences? h s f) := by
  match h with
  | none => exact .nil
  | some (.decl ⟨_, _, decls⟩) => exact (decls_show decls s f).node rfl
  | some (.expr e) => exact e.shows s f
termination_by structural h

theorem loopNames_show (ds : List Declarator) (s f : NodeId) :
    Shows (declNodes true ds) (loopNameOccurrences ds s f) := by
  match ds with
  | [] => exact .nil
  | ⟨_, name, init⟩ :: rest =>
    exact ((expr?_shows init s f).silenced.append (loopNames_show rest s f)).name
      ⟨name, .use .forIn, s, f⟩
termination_by structural ds

theorem loopHead_shows (h : ForHead) (s f : NodeId) :
    Shows (h.loopNodes true) (loopHeadOccurrences h s f) := by
  match h with
  | .decl ⟨_, _, decls⟩ => exact (loopNames_show decls s f).node rfl
  | .expr e =>
    have he := e.shows s f
    cases e with
    | ident i => exact Shows.nil.ident ⟨i, .use .forIn, s, f⟩
    | _ => exact he
termination_by structural h

theorem handler?_shows (c : Option CatchClause) (f : NodeId) :
    Shows (handlerNodes? true c) (handlerOccurrences? c f) := by
  match c with
  | none => exact .nil
  | some ⟨id, some p, body⟩ => exact (body.shows f).name ⟨p, .use .init, id, f⟩
  | some ⟨_, none, body⟩ => exact body.shows f
termination_by structural c

theorem Stmt.shows (st : Stmt) (s f : NodeId) : Shows (st.nodes true) (st.occurrences s f) := by
  cases st with
  | block b => exact (b.shows f).node rfl
  | expr id e => exact (e.shows s f).node rfl
  | var d =>
    obtain ⟨id, kind, decls⟩ := d
    exact ((decls_show decls s f).node rfl).node rfl
  | function id name fn => exact (fn.shows.name ⟨name, .use .init, s, f⟩).node rfl
  | «if» id test yes no =>
    exact (((test.shows s f).append (yes.shows s f)).append (stmt?_shows no s f)).node rfl
  | «for» id init test update body =>
    exact ((((head?_shows init _ f).append (expr?_shows test _ f)).append
      (expr?_shows update _ f)).append (body.shows _ f)).node rfl
  | forIn id head obj body =>
    exact (((loopHead_shows head _ f).append (obj.shows _ f)).append (body.shows _ f)).node rfl
  | «while» id test body => exact ((test.shows s f).append (body.shows s f)).node rfl
  | doWhile id body test => exact ((body.shows s f).append (test.shows s f)).node rfl
  | «return» id arg => exact (expr?_shows arg s f).node rfl
  | labeled id label body => exact (body.shows s f).node rfl
  | throw id arg => exact (arg.shows s f).node rfl
  | «with» id obj body => exact ((obj.shows s f).append (body.shows s f)).node rfl
  | «try» id block handler finalizer =>
    exact (((block.shows f).append (handler?_shows handler f)).append
      (block?_shows finalizer f)).node rfl
  | _ => exact Shows.nil.node rfl
termination_by structural st

theorem stmt?_shows (st : Option Stmt) (s f : NodeId) :
    Shows (stmtNodes? true st) (stmtOccurrences? st s f) := by
  match st with
  | none => exact .nil
  | some st => exact st.shows s f
termination_by structural st

theorem stmts_show (ss : List Stmt) (s f : NodeId) :
    Shows (stmtNodes true ss) (stmtOccurrences ss s f) := by
  match ss with
  | [] => exact .nil
  | st :: rest => exact (st.shows s f).append (stmts_show rest s f)
termination_by structural ss

end

/-- Every name that binds or refers to a variable has its place in the list. -/
theorem Program.occurrences_show (p : Program) : Shows p.nodes p.occurrences :=
  stmts_show p.body p.id p.id

end EsOptimizer
