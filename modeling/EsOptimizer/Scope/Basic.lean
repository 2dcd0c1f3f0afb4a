import EsOptimizer.Syntax.Walk
import EsOptimizer.Value.Basic
import Std.Data.TreeMap.Basic
import Std.Data.TreeSet.Basic

/-!
# Scopes and variables

Which variable a name refers to, and where each variable is read and written. Scopes and variables
are numbered in the order in which they are met, so the scope around another has a smaller number.
-/

namespace EsOptimizer

abbrev VarId := Nat

abbrev ScopeId := Nat

abbrev VarSet := Std.TreeSet VarId

/-- How a variable comes to be. -/
inductive VarKind where
  | var
  | let
  | const
  /-- A function declaration. -/
  | function
  | param
  | catchParam
  /-- The name of a function expression, known inside the function only. -/
  | ownName
  /-- Used without a declaration. -/
  | implicit
deriving DecidableEq, Repr, Inhabited

/-- What an occurrence of a name does to its variable. -/
inductive SiteKind where
  | read
  /-- The object of an assignment to a property. -/
  | propertyWrite
  | callee
  /-- A declaration with a value: an initializer, a function, a parameter. -/
  | init
  | assign
  /-- An assignment that reads the variable too. -/
  | compound
  /-- The variable of a `for-in` loop. -/
  | forIn
deriving DecidableEq, Repr

def SiteKind.isWrite : SiteKind → Bool
  | .init | .assign | .compound | .forIn => true
  | .read | .propertyWrite | .callee => false

/-- An occurrence of a name that reads or writes a variable. -/
structure Site where
  ident : NodeId
  /-- The scope of the function, or program, that it is in. -/
  fnScope : ScopeId
  kind : SiteKind
deriving DecidableEq, Repr

/-- The name of a variable across versions of a program: variables are numbered anew for
each version, but a node that stays keeps its id. -/
inductive VarKey where
  /-- The first name that declares it. -/
  | decl (id : NodeId)
  | global (name : String)
deriving DecidableEq, Repr

namespace VarKey

/-- Declared variables come before others. -/
def tier : VarKey → Nat
  | decl _ => 0
  | global _ => 1

def number : VarKey → Nat
  | decl id => id
  | global _ => 0

def text : VarKey → String
  | decl _ => ""
  | global name => name

/-- Declared variables by node, then the others by name. -/
instance : Ord VarKey :=
  ⟨compareLex (compareOn tier) (compareLex (compareOn number) (compareOn text))⟩

end VarKey

structure Variable where
  name : String
  kind : VarKind
  scope : ScopeId
  /-- The scope of the function, or program, that declares it. -/
  fnScope : ScopeId
  decl : Option NodeId
  /-- What it holds before the code of its scope runs. -/
  initial : Option Value := none
  reads : List Site := []
  writes : List Site := []
deriving Repr, Inhabited

namespace Variable

/-- Variables of the outermost scope are global. -/
def isGlobal (v : Variable) : Bool := v.scope == 0

def isBlockScoped (v : Variable) : Bool := v.kind == .let || v.kind == .const

def key (v : Variable) : VarKey :=
  match v.decl with
  | some id => .decl id
  | none => .global v.name

/-- Whether a function other than the one that declares it writes it. -/
def hasForeignWrites (v : Variable) : Bool := v.writes.any (·.fnScope != v.fnScope)

/-- Whether it is a built-in global that the program never assigns. -/
def isPristine (v : Variable) : Bool :=
  v.kind == .implicit && v.writes.isEmpty && v.initial.isSome

/-- Whether nothing depends on it: it is read at most as the object of assignments to properties,
and written by plain assignments only. -/
def isUnused (v : Variable) : Bool :=
  v.reads.all (·.kind == .propertyWrite) &&
    v.writes.all fun s => s.kind == .init || s.kind == .assign

end Variable

/-- What a scope belongs to. -/
inductive ScopeKind where
  | program
  | function (id : NodeId)
  | block (id : NodeId)
  | catch (id : NodeId)
deriving DecidableEq, Repr, Inhabited

structure Scope where
  parent : Option ScopeId
  kind : ScopeKind
  /-- The innermost scope of a function, or program, that it is part of. -/
  fnScope : ScopeId
  /-- Its variables, in the order in which they were met. -/
  vars : List (String × VarId) := []
  /-- Function declarations that are in force when it is entered: variable and function. -/
  hoisted : List (VarId × NodeId) := []
deriving Repr, Inhabited

structure FunctionInfo where
  scope : ScopeId
  params : List VarId
  usesArguments : Bool := false
  usesThis : Bool := false
  /-- The variable that holds a declared function, or a function expression's own name. -/
  nameVar : Option VarId := none
  isDecl : Bool := false
deriving Repr

structure ScopeTree where
  scopes : Array Scope
  vars : Array Variable := #[]
  /-- The variable of each name. -/
  identVars : Std.TreeMap NodeId VarId := {}
  /-- What each name does to its variable. -/
  sites : Std.TreeMap NodeId SiteKind := {}
  /-- The scope that a node opens. -/
  nodeScopes : Std.TreeMap NodeId ScopeId := {}
  functions : Std.TreeMap NodeId FunctionInfo := {}
  /-- Variables that are not global and that an inner function uses. -/
  captured : VarSet := {}
  /-- Global variables that a function uses. -/
  sharedGlobals : VarSet := {}
  /-- Whether names may mean something else when the program runs. -/
  hasDynamicScope : Bool := false

namespace ScopeTree

/-- The scope of the program. -/
def root : ScopeId := 0

def var (t : ScopeTree) (id : VarId) : Variable := t.vars.getD id default

def scope (t : ScopeTree) (id : ScopeId) : Scope := t.scopes.getD id default

def varOf (t : ScopeTree) (ident : NodeId) : Option VarId := t.identVars[ident]?

def siteKind (t : ScopeTree) (ident : NodeId) : Option SiteKind := t.sites[ident]?

def scopeOf (t : ScopeTree) (node : NodeId) : Option ScopeId := t.nodeScopes[node]?

def function? (t : ScopeTree) (node : NodeId) : Option FunctionInfo := t.functions[node]?

/-- Looks a name up in a scope and at most `n` scopes around it. -/
def lookupWithin (t : ScopeTree) (name : String) : Nat → ScopeId → Option VarId
  | 0, s => (t.scope s).vars.lookup name
  | n + 1, s =>
    match (t.scope s).vars.lookup name with
    | some v => some v
    | none => (t.scope s).parent.bind (t.lookupWithin name n)

/-- The variable that a name means in a scope. There are no more scopes around one than its number
says. -/
def lookup (t : ScopeTree) (s : ScopeId) (name : String) : Option VarId := t.lookupWithin name s s

/-- The value of a variable before the code of its scope runs. -/
def initialValue (t : ScopeTree) (v : VarId) : Option Value := (t.var v).initial

/-- The variables of the outermost scope. -/
def globalVars (t : ScopeTree) : List VarId := (t.scope root).vars.map (·.2)

/-- The variable that a node writes, if it is a name that does so. -/
def writtenBy? (t : ScopeTree) : Node → Option VarId
  | .name i => if ((t.siteKind i.id).map SiteKind.isWrite).getD false then t.varOf i.id else none
  | _ => none

/-- The variables that are written somewhere in a statement. -/
def writtenIn (t : ScopeTree) (s : Stmt) : VarSet :=
  .ofList ((s.nodes true).filterMap t.writtenBy?)

end ScopeTree

end EsOptimizer
