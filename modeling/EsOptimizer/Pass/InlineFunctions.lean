import EsOptimizer.Analysis
import EsOptimizer.Pass.Literal
import EsOptimizer.Syntax.Transform

/-!
# Inlined calls

A call of a function of the program that always gives the same primitive value becomes that value.
A call of a function whose body only returns an expression over its parameters becomes that
expression, with the arguments in place of the parameters.
-/

namespace EsOptimizer

namespace InlineFunctions

/-- A function whose calls can be replaced by what it returns. -/
structure Template where
  params : List String
  body : Expr

/-- The parameter that a name reads; a name that does anything else has none. -/
def paramRead? (scopes : ScopeTree) (info : FunctionInfo) (name : Ident) : Option VarId :=
  if scopes.siteKind name.id == some .read then
    (scopes.varOf name.id).filter info.params.contains
  else none

/-- The parameters that an expression reads, one for each occurrence, if it refers to no other
variables and has no functions in it. -/
def paramReads? (scopes : ScopeTree) (info : FunctionInfo) (e : Expr) : Option (List VarId) :=
  let reads := (e.nodes false).map fun n => match n with
    | .name i => (paramRead? scopes info i).map ([·])
    | .func _ => none
    | _ => some []
  (reads.mapM id).map List.flatten

/-- The expression that a function returns, if it does nothing else. -/
def returned? (fn : Func) : Option Expr :=
  match fn.body.stmts with
  | [.return _ (some e)] => some e
  | _ => none

/-- Whether a call could see the function itself. -/
def seesItself (info : FunctionInfo) : Bool := info.usesArguments || info.usesThis

/-- A function of one `return`, whose parameters have different names and are read at most once. -/
def template? (scopes : ScopeTree) (fn : Func) : Option Template :=
  let params := fn.params.map (·.name)
  match scopes.function? fn.id, returned? fn with
  | some info, some body =>
    match paramReads? scopes info body with
    | some reads =>
      if !seesItself info && params.Nodup && reads.Nodup then some ⟨params, body⟩ else none
    | none => none
  | _, _ => none

/-- The templates of a program by function. -/
def templates (scopes : ScopeTree) (p : Program) : Std.TreeMap NodeId Template :=
  .ofList (p.functions.filterMap fun fn => (template? scopes fn).map (fn.id, ·))

/-- The function of the program that an expression always is. -/
def function? (a : Analysis) (e : Expr) : Option NodeId :=
  ((a.pureValue? e.id).bind Value.reference?).bind Reference.function?

/-- Whether arguments can stand where a template reads its parameters. The arguments are evaluated
later there, so unless the function is pure they must be literals. -/
def Template.accepts (t : Template) (a : Analysis) (function : NodeId) (args : List Expr) : Bool :=
  let isPure := ((a.facts.summaries[function]?).map (·.pure)).getD false
  args.length ≤ t.params.length && args.all (fun e => a.isPure e.id) &&
    (isPure || args.all Expr.isLiteral)

/-- Puts arguments in the place of parameters, and `undefined` where there is none. -/
def substitution (params : List String) (args : List Expr) : Transform where
  expr _ e :=
    match e with
    | .ident i =>
      if params.contains i.name then
        match (params.zip args).lookup i.name with
        | some arg => pure arg
        | none => Make.undefined
      else pure e
    | e => pure e

/-- A copy of what the function returns, with the arguments put in. -/
def Template.instantiate (t : Template) (args : List Expr) : Edit Expr := do
  let body ← Edit.ofFresh t.body.renumber
  (substitution t.params args).onExpr body .value

/-- What takes the place of a call of a function. -/
def inlined? (a : Analysis) (templates : Std.TreeMap NodeId Template) (id function : NodeId)
    (callee : Expr) (args : List Expr) : Option (Edit Expr) :=
  match a.constant? id with
  | some p => some (Make.literal p)
  | none =>
    match callee, templates[function]? with
    | .ident _, some t => if t.accepts a function args then some (t.instantiate args) else none
    | _, _ => none

/-- What takes the place of an expression. -/
def outcome? (a : Analysis) (templates : Std.TreeMap NodeId Template) : Expr → Option (Edit Expr)
  | .call id callee args =>
    (function? a callee).bind fun function => inlined? a templates id function callee args
  | _ => none

def transform (a : Analysis) (templates : Std.TreeMap NodeId Template) : Transform where
  expr _ e :=
    match outcome? a templates e with
    | none => pure e
    | some build => do
      Edit.markChanged
      build

end InlineFunctions

/-- Replaces calls by what they give. -/
def inlineFunctions (a : Analysis) (src : Source) : Source × Bool :=
  (InlineFunctions.transform a (InlineFunctions.templates a.scopes src.program)).run src []

end EsOptimizer
