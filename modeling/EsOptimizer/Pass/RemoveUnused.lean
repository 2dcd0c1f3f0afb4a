import EsOptimizer.Analysis
import EsOptimizer.Syntax.Transform

/-!
# Unused variables

Variables that are never read are removed, along with the stores into them. Stores into properties
of an unused variable's objects go too, if every object that the variable ever holds is a fresh
literal: then no setter can observe the store.
-/

namespace EsOptimizer

namespace RemoveUnused

/-- Whether a variable may be removed if nothing reads it. A global one may be read from outside, and
an assignment to one with the reach of a block may throw. -/
def isRemovable (options : Options) (v : Variable) : Bool :=
  !([VarKind.param, .catchParam, .ownName].contains v.kind) &&
    (!v.isGlobal || options.noGlobalPropertyReads) &&
    (!v.isBlockScoped || v.writes.all (·.kind == .init))

/-- Variables whose values nothing reads. -/
def candidates (options : Options) (scopes : ScopeTree) : VarSet :=
  .ofList ((List.range scopes.vars.size).filter fun id =>
    isRemovable options (scopes.var id) && (scopes.var id).isUnused)

/-- Whether a property has a plain value under a name other than that of the prototype. -/
def isPlainProperty : Property → Bool
  | .value _ (.ident i) _ => i.name != "__proto__"
  | .value _ (.string _ s) _ => s != "__proto__"
  | .value _ _ _ => true
  | .getter _ _ _ | .setter _ _ _ => false

/-- Whether an expression gives a new object that has no accessors. -/
def isFresh : Expr → Bool
  | .array _ _ | .function _ _ _ => true
  | .object _ props => props.all isPlainProperty
  | _ => false

/-- The variable whose object an assignment to a property changes. -/
def storeObject? : Expr → Option Ident
  | .member _ (.ident obj) _ | .index _ (.ident obj) _ => some obj
  | _ => none

/-- Whether a name holds an object each time it is evaluated, so that a store does not throw. -/
def holdsObjects (a : Analysis) (name : Ident) : Bool :=
  match (a.factsOf name.id).bind (·.value.singles?) with
  | none => false
  | some singles => singles.all (·.reference?.isSome)

/-- What has to stay of an assignment to a property that nothing observes: the key, if it has
effects. There is no answer if the store itself has to stay. -/
def removableStore? (a : Analysis) : Expr → Option (Option Expr)
  | .member _ (.ident obj) _ => if holdsObjects a obj then some none else none
  | .index _ (.ident obj) key =>
    match a.factsOf key.id with
    | none => none
    | some facts =>
      if holdsObjects a obj && facts.value.isPrimitive then
        some (if facts.pure then none else some key)
      else none
  | _ => none

/-- The variable of a declarator that gives it anything but a new object. -/
def staleDeclarator? (scopes : ScopeTree) (d : Declarator) : Option VarId :=
  match d.init with
  | some init => if isFresh init then none else scopes.varOf d.name.id
  | none => none

/-- The variables that a node gives anything but a new object, or whose objects it changes in a way
that has to stay. -/
def staleVars (a : Analysis) : Node → List VarId
  | .decl d | .loopDecl d => d.decls.filterMap (staleDeclarator? a.scopes)
  | .expr (.assign _ _ (.ident i) right) =>
    if isFresh right then [] else (a.scopes.varOf i.id).toList
  | .expr (.assign _ .assign target _) =>
    match storeObject? target with
    | some obj => if (removableStore? a target).isSome then [] else (a.scopes.varOf obj.id).toList
    | none => []
  | _ => []

/-- Which variables are removed. -/
structure Unused where
  analysis : Analysis
  vars : VarSet
  /-- Variables that hold fresh objects only, so that stores into these go too. -/
  fresh : VarSet

namespace Unused

/-- The unused variables of a program. Stores into properties keep a variable, unless they can be
removed with it. -/
def ofProgram (options : Options) (a : Analysis) (p : Program) : Unused :=
  let candidates := candidates options a.scopes
  let stale : VarSet := .ofList (p.nodes.flatMap (staleVars a))
  let fresh := candidates.filter fun v => options.noNativeOverwrites && !stale.contains v
  { analysis := a
    vars := candidates.filter fun v => (a.scopes.var v).reads.isEmpty || fresh.contains v
    fresh }

def contains (u : Unused) (name : Ident) : Bool :=
  (u.analysis.scopes.varOf name.id).any u.vars.contains

/-- What has to stay of an assignment to a property of an unused variable's object. -/
def deadStore? (u : Unused) (target : Expr) : Option (Option Expr) :=
  match storeObject? target with
  | none => none
  | some obj =>
    if (u.analysis.scopes.varOf obj.id).any u.fresh.contains then removableStore? u.analysis target
    else none

/-- Whether an expression does nothing but store into an unused variable. -/
def isDeadStore (u : Unused) : Expr → Bool
  | .assign _ .assign (.ident i) right => u.analysis.isPure right.id && u.contains i
  | .assign _ .assign target right =>
    u.analysis.isPure right.id && (u.deadStore? target).any (·.isNone)
  | _ => false

end Unused

/-! ## Declarations -/

/-- A part of what is left of a declaration. -/
inductive Remnant where
  | decls (decls : List Declarator)
  /-- The value of a removed variable, which has effects, as it was and with its parts done. -/
  | effect (before after : Expr)

/-- Declarators that stay together. -/
def together (kept : List Declarator) : List Remnant :=
  if kept.isEmpty then [] else [.decls kept]

/-- What is left of a declaration, given its declarators as they were and with their parts done, and
those that are kept so far. -/
def remnants (u : Unused) : List (Declarator × Declarator) → List Declarator → List Remnant
  | [], kept => together kept
  | (before, after) :: rest, kept =>
    if !u.contains before.name then remnants u rest (kept ++ [after])
    else
      match before.init, after.init with
      | some value, some done =>
        if u.analysis.isPure value.id then remnants u rest kept
        else together kept ++ .effect value done :: remnants u rest []
      | _, _ => remnants u rest kept

/-- Whether nothing of a remnant is needed. -/
def Remnant.isDead (u : Unused) : Remnant → Bool
  | .decls _ => false
  | .effect before _ => u.isDeadStore before

def Remnant.stmt (kind : DeclKind) : Remnant → Edit Stmt
  | .decls kept => return .var ⟨← Edit.newId, kind, kept⟩
  | .effect _ after => Make.expr after

/-- The statements that are left of a declaration. Where several take the place of one, they form a
block of their own, which is cleaned in turn. -/
def remnantStmts (u : Unused) (place : Place) (kind : DeclKind) (parts : List Remnant) :
    Edit (List Stmt) := do
  if place = .alone && 1 < parts.length then
    return [← Make.block (← (parts.filter (!·.isDead u)).mapM (·.stmt kind))]
  else parts.mapM (·.stmt kind)

/-! ## The pass -/

/-- What takes the place of a statement. -/
def onStmt (u : Unused) (place : Place) (before after : Stmt) : Edit (List Stmt) := do
  match before, after with
  | .function _ name _, _ =>
    if u.contains name then
      Edit.markChanged
      return []
    else return [after]
  | .var d, .var done =>
    if d.decls.any (u.contains ·.name) then
      Edit.markChanged
      remnantStmts u place d.kind (remnants u (d.decls.zip done.decls) [])
    else return [after]
  | .expr _ e, _ =>
    if u.isDeadStore e then
      Edit.markChanged
      return []
    else return [after]
  | _, _ => return [after]

/-- What takes the place of an assignment. -/
def onExpr (u : Unused) (e : Expr) : Edit Expr := do
  match e with
  | .assign _ .assign (.ident i) right =>
    if u.contains i then
      Edit.markChanged
      return right
    else return e
  | .assign _ .assign target right =>
    match u.deadStore? target with
    | none => return e
    | some none => do
      Edit.markChanged
      return right
    | some (some key) => do
      Edit.markChanged
      Make.seq [key, right]
  | e => return e

def transform (u : Unused) : Transform where
  enter role _ := role != .loopTarget
  expr _ e := onExpr u e
  stmt := onStmt u

end RemoveUnused

/-- Removes unused variables. -/
def removeUnused (options : Options) (a : Analysis) (src : Source) : Source × Bool :=
  (RemoveUnused.transform (.ofProgram options a src.program)).run src []

end EsOptimizer
