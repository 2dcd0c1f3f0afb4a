import EsOptimizer.Syntax.Renumber

/-!
# Editing the tree

Changes to a program run in `Edit`, which hands out ids for new nodes, notes whether anything
changed, and keeps the names that are already taken. `Make` builds the nodes that changes need.
-/

namespace EsOptimizer

/-- What editing carries along. -/
structure EditState where
  nextId : NodeId
  changed : Bool := false
  /-- Names that a new variable or label must avoid. -/
  taken : List String := []

abbrev Edit := StateM EditState

namespace Edit

/-- An id for a new node. -/
def newId : Edit NodeId := fun s => (s.nextId, { s with nextId := s.nextId + 1 })

/-- Notes that the program is not what it was. -/
def markChanged : Edit Unit := modify fun s => { s with changed := true }

/-- Runs a computation that only hands out ids. -/
def ofFresh {α : Type} (x : Fresh α) : Edit α := fun s =>
  let (a, n) := x s.nextId
  (a, { s with nextId := n })

/-- The first of `base`, `base1`, `base2`, … that is not taken. Among one more candidates than there
are taken names, one is free. -/
def freeName (base : String) (taken : List String) : String :=
  let candidates := base :: (List.range (taken.length + 1)).map fun i => s!"{base}{i + 1}"
  (candidates.find? fun n => !taken.contains n).getD base

/-- A name that nothing uses yet. -/
def uniqueName (base : String) : Edit String := fun s =>
  let name := freeName base s.taken
  (name, { s with taken := name :: s.taken })

end Edit

/-! ## New nodes -/

namespace Make

open Edit

def number (n : Number) : Edit Expr := return .number (← newId) n

def unary (op : UnaryOp) (arg : Expr) : Edit Expr := return .unary (← newId) op arg

/-- `void 0` -/
def undefined : Edit Expr := do unary .void (← number .zero)

def ident (name : String) : Edit Ident := return ⟨← newId, name⟩

def assign (name : String) (value : Expr) : Edit Expr := do
  let target ← ident name
  return .assign (← newId) .assign (.ident target) value

def seq (exprs : List Expr) : Edit Expr := return .seq (← newId) exprs

def empty : Edit Stmt := return .empty (← newId)

def expr (e : Expr) : Edit Stmt := return .expr (← newId) e

def block (stmts : List Stmt) : Edit Stmt := return .block ⟨← newId, stmts⟩

def declarator (name : String) (init : Option Expr) : Edit Declarator :=
  return ⟨← newId, ← ident name, init⟩

/-- `var a, b;` -/
def vars (names : List String) : Edit Stmt :=
  return .var ⟨← newId, .var, ← names.mapM (declarator · none)⟩

/-- `var name = value;` -/
def declare (name : String) (value : Expr) : Edit Stmt :=
  return .var ⟨← newId, .var, [← declarator name (some value)]⟩

/-- The statements as one statement: nothing becomes an empty statement, several become a block. -/
def single : List Stmt → Edit Stmt
  | [] => empty
  | [s] => pure s
  | stmts => block stmts

end Make

end EsOptimizer
